import Patchouli.Lib.Double
import Patchouli.Lib.Json

/-!
# The compact text of a JSON value

What `serde_json::to_string` writes: no blanks, strings with the escapes of its table, numbers in
decimal, floats as a parameter prints them. The text determines the value: a number ends where a
character comes that no number has, a string at its closing quote, and every other value says by
its first character what it is. That is the induction: `write_append_inj` holds for a value followed
by anything that can follow a value.

`Value.Normal` is what a reader builds: integers below zero are the negative ones, floats are
doubles, and the keys of an object are sorted and distinct. Of that the text needs the first two.

## Main definitions

* `Json.Value.All`, `Json.Value.Normal`
* `Json.FloatText` — how floats are printed, with what is relied on
* `Json.FloatText.write`

## Main results

* `Json.FloatText.write_injective` — equal texts, equal values
-/

namespace Json

/-! ### Values as they are read -/

/-- A number as it is read. -/
def Number.Normal : Number → Prop
  | .posInt _ => True
  | .negInt n => n < 0
  | .float x => Double.IsDouble x

namespace Value

section All

variable (p : Value → Prop)

mutual

/-- A condition on a value and on every value inside it. -/
def All : Value → Prop
  | array values => p (array values) ∧ AllValues values
  | object fields => p (object fields) ∧ AllFields fields
  | null => p null
  | bool b => p (bool b)
  | number n => p (number n)
  | string s => p (string s)

/-- The condition on the values of an array. -/
def AllValues : List Value → Prop
  | [] => True
  | value :: values => value.All ∧ AllValues values

/-- The condition on the values of an object. -/
def AllFields : List (String × Value) → Prop
  | [] => True
  | (_, value) :: fields => value.All ∧ AllFields fields

end

variable {p}

theorem AllValues.iff_forall {values : List Value} :
    AllValues p values ↔ ∀ value ∈ values, value.All p := by
  induction values with
  | nil => simp [AllValues]
  | cons value values ih => rw [AllValues, ih, List.forall_mem_cons]

theorem AllFields.iff_forall {fields : List (String × Value)} :
    AllFields p fields ↔ ∀ entry ∈ fields, entry.2.All p := by
  induction fields with
  | nil => simp [AllFields]
  | cons field fields ih => rw [AllFields, ih, List.forall_mem_cons]

theorem All.self {value : Value} (h : value.All p) : p value := by
  cases value with
  | array values => exact h.1
  | object fields => exact h.1
  | _ => exact h

variable {q : Value → Prop}

mutual

theorem All.imp (hpq : ∀ value, p value → q value) {value : Value} (h : value.All p) :
    value.All q := by
  cases value with
  | array values => exact ⟨hpq _ h.1, h.2.imp hpq⟩
  | object fields => exact ⟨hpq _ h.1, h.2.imp hpq⟩
  | _ => exact hpq _ h

theorem AllValues.imp (hpq : ∀ value, p value → q value) {values : List Value}
    (h : AllValues p values) : AllValues q values := by
  cases values with
  | nil => trivial
  | cons value values => exact ⟨h.1.imp hpq, h.2.imp hpq⟩

theorem AllFields.imp (hpq : ∀ value, p value → q value) {fields : List (String × Value)}
    (h : AllFields p fields) : AllFields q fields := by
  cases fields with
  | nil => trivial
  | cons field fields => exact ⟨h.1.imp hpq, h.2.imp hpq⟩

end

theorem All.field {token : List Char} {value : Value} {fields : List (String × Value)}
    (h : AllFields p fields) (hfield : field token fields = some value) : value.All p := by
  induction fields with
  | nil => cases hfield
  | cons entry rest ih =>
    simp only [Value.field] at hfield
    split at hfield
    · rw [← Option.some.inj hfield]
      exact h.1
    · exact ih h.2 hfield

theorem All.child {value inner : Value} {token : List Char} (h : value.All p)
    (hchild : value.child token = some inner) : inner.All p := by
  cases value with
  | object fields => exact All.field h.2 hchild
  | array values =>
    obtain ⟨i, -, hi⟩ := Option.bind_eq_some_iff.mp hchild
    exact AllValues.iff_forall.mp h.2 _ (List.mem_of_getElem? hi)
  | _ => cases hchild

theorem All.get {value inner : Value} {tokens : List (List Char)} (h : value.All p)
    (hget : value.get tokens = some inner) : inner.All p := by
  induction tokens generalizing value with
  | nil =>
    rw [← Option.some.inj hget]
    exact h
  | cons token rest ih =>
    obtain ⟨child, hchild, hrest⟩ := Option.bind_eq_some_iff.mp hget
    exact ih (h.child hchild) hrest

/-- A condition on a value and everything inside it holds of what a pointer finds. -/
theorem All.pointer {value inner : Value} {pointer : String} (h : value.All p)
    (hpointer : value.pointer pointer = some inner) : inner.All p := by
  obtain ⟨tokens, -, hget⟩ := Option.bind_eq_some_iff.mp hpointer
  exact h.get hget

end All

/-- Numbers as they are read. -/
def NumbersNormal : Value → Prop
  | number n => n.Normal
  | _ => True

/-- Objects as they are read: sorted keys. -/
def KeysSorted : Value → Prop
  | object fields => (fields.map (·.1)).Pairwise (· < ·)
  | _ => True

/-- A value as it is read. -/
def Normal (value : Value) : Prop := value.All fun v => v.NumbersNormal ∧ v.KeysSorted

end Value

/-! ### Strings -/

/-- The characters escaped by a letter, with the letter. -/
def escapeLetters : List (Char × Char) :=
  [(Char.ofNat 34, Char.ofNat 34), (Char.ofNat 92, Char.ofNat 92), (Char.ofNat 8, 'b'),
    (Char.ofNat 9, 't'), (Char.ofNat 10, 'n'), (Char.ofNat 12, 'f'), (Char.ofNat 13, 'r')]

/-- The letter that escapes a character. -/
def escapeLetter (c : Char) : Option Char := (escapeLetters.find? (·.1 = c)).map (·.2)

/-- A character inside a string. -/
def writeChar (c : Char) : List Char :=
  match escapeLetter c with
  | some letter => [Char.ofNat 92, letter]
  | none =>
    if c.toNat < 32 then
      [Char.ofNat 92, 'u', '0', '0', (c.toNat / 16).digitChar, (c.toNat % 16).digitChar]
    else [c]

/-- A string with its quotes. -/
def writeString (s : String) : List Char :=
  Char.ofNat 34 :: (s.toList.flatMap writeChar ++ [Char.ofNat 34])

theorem escapeLetter_mem {c letter : Char} (h : escapeLetter c = some letter) :
    (c, letter) ∈ escapeLetters := by
  obtain ⟨⟨d, l⟩, hfind, rfl⟩ := Option.map_eq_some_iff.mp h
  have hd := List.find?_some hfind
  simp only [decide_eq_true_eq] at hd
  exact hd ▸ List.mem_of_find?_eq_some hfind

theorem escapeLetter_injective {c d letter : Char} (hc : escapeLetter c = some letter)
    (hd : escapeLetter d = some letter) : c = d := by
  have hall : ∀ p ∈ escapeLetters, ∀ q ∈ escapeLetters, p.2 = q.2 → p.1 = q.1 := by decide
  exact hall _ (escapeLetter_mem hc) _ (escapeLetter_mem hd) rfl

theorem escapeLetter_ne_u {c letter : Char} (h : escapeLetter c = some letter) : letter ≠ 'u' := by
  have hall : ∀ p ∈ escapeLetters, p.2 ≠ 'u' := by decide
  exact hall _ (escapeLetter_mem h)

/-- The quote and the backslash are escaped. -/
theorem escapeLetter_eq_none {c : Char} (h : escapeLetter c = none) :
    c ≠ Char.ofNat 34 ∧ c ≠ Char.ofNat 92 := by
  constructor
  · rintro rfl
    exact absurd h (by decide)
  · rintro rfl
    exact absurd h (by decide)

theorem writeChar_cases (c : Char) :
    (∃ letter, escapeLetter c = some letter ∧ writeChar c = [Char.ofNat 92, letter]) ∨
      (c.toNat < 32 ∧ writeChar c =
        [Char.ofNat 92, 'u', '0', '0', (c.toNat / 16).digitChar, (c.toNat % 16).digitChar]) ∨
      (writeChar c = [c] ∧ c ≠ Char.ofNat 34 ∧ c ≠ Char.ofNat 92) := by
  cases h : escapeLetter c with
  | some letter => exact Or.inl ⟨letter, rfl, by simp [writeChar, h]⟩
  | none =>
    by_cases hlow : c.toNat < 32
    · exact Or.inr (Or.inl ⟨hlow, by simp [writeChar, h, hlow]⟩)
    · exact Or.inr (Or.inr ⟨by simp [writeChar, h, hlow], escapeLetter_eq_none h⟩)

/-- The first character of a written character is no quote. -/
theorem writeChar_ne_quote (c : Char) (rest : List Char) :
    ∃ d ds, writeChar c ++ rest = d :: ds ∧ d ≠ Char.ofNat 34 := by
  rcases writeChar_cases c with ⟨letter, -, h⟩ | ⟨-, h⟩ | ⟨h, hquote, -⟩ <;> rw [h]
  · exact ⟨_, _, rfl, by decide⟩
  · exact ⟨_, _, rfl, by decide⟩
  · exact ⟨_, _, rfl, hquote⟩

theorem digitChar_injective {m n : ℕ} (hm : m < 16) (hn : n < 16)
    (h : m.digitChar = n.digitChar) : m = n := by
  have hall : ∀ a < 16, ∀ b < 16, a.digitChar = b.digitChar → a = b := by decide
  exact hall m hm n hn h

theorem writeChar_append_inj {c d : Char} {r s : List Char}
    (h : writeChar c ++ r = writeChar d ++ s) : c = d ∧ r = s := by
  rcases writeChar_cases c with ⟨l, hl, hc⟩ | ⟨hclow, hc⟩ | ⟨hc, -, hcslash⟩ <;>
    rcases writeChar_cases d with ⟨m, hm, hd⟩ | ⟨hdlow, hd⟩ | ⟨hd, -, hdslash⟩ <;>
    rw [hc, hd] at h <;>
    simp only [List.cons_append, List.nil_append, List.cons.injEq, true_and] at h
  · obtain ⟨rfl, rfl⟩ := h
    exact ⟨escapeLetter_injective hl hm, rfl⟩
  · exact absurd h.1 (escapeLetter_ne_u hl)
  · exact absurd h.1.symm hdslash
  · exact absurd h.1.symm (escapeLetter_ne_u hm)
  · obtain ⟨hhigh, hlow, rfl⟩ := h
    have h1 := digitChar_injective (by omega) (by omega) hhigh
    have h2 := digitChar_injective (by omega) (by omega) hlow
    have hnat : c.toNat = d.toNat := by omega
    exact ⟨Char.ext (UInt32.toNat_inj.mp hnat), rfl⟩
  · exact absurd h.1.symm hdslash
  · exact absurd h.1 hcslash
  · exact absurd h.1 hcslash
  · exact h

/-- **A string ends at its closing quote.** -/
theorem writeString_append_inj {a b : String} {r s : List Char}
    (h : writeString a ++ r = writeString b ++ s) : a = b ∧ r = s := by
  have key : ∀ cs ds : List Char,
      cs.flatMap writeChar ++ Char.ofNat 34 :: r = ds.flatMap writeChar ++ Char.ofNat 34 :: s →
      cs = ds ∧ r = s := by
    intro cs
    induction cs with
    | nil =>
      intro ds hds
      cases ds with
      | nil => simpa using hds
      | cons d ds =>
        obtain ⟨x, xs, hx, hquote⟩ :=
          writeChar_ne_quote d (ds.flatMap writeChar ++ Char.ofNat 34 :: s)
        rw [List.flatMap_cons, List.append_assoc, hx] at hds
        exact absurd (List.cons.inj hds).1.symm hquote
    | cons c cs ih =>
      intro ds hds
      cases ds with
      | nil =>
        obtain ⟨x, xs, hx, hquote⟩ :=
          writeChar_ne_quote c (cs.flatMap writeChar ++ Char.ofNat 34 :: r)
        rw [List.flatMap_cons, List.append_assoc, hx] at hds
        exact absurd (List.cons.inj hds).1 hquote
      | cons d ds =>
        rw [List.flatMap_cons, List.flatMap_cons, List.append_assoc, List.append_assoc] at hds
        obtain ⟨rfl, hrest⟩ := writeChar_append_inj hds
        obtain ⟨rfl, hrs⟩ := ih ds hrest
        exact ⟨rfl, hrs⟩
  simp only [writeString, List.cons_append, List.cons.injEq, true_and, List.append_assoc,
    List.nil_append] at h
  obtain ⟨hlist, hrs⟩ := key _ _ h
  exact ⟨String.toList_injective hlist, hrs⟩

/-! ### Numbers -/

/-- The characters of numbers. -/
def isNumberChar (c : Char) : Bool :=
  c.isDigit || c = '-' || c = '.' || c = 'e' || c = 'E' || c = '+'

/-- What may follow a value: nothing, or a character that no number has. -/
def Follows (rest : List Char) : Prop := ∀ c, rest.head? = some c → isNumberChar c = false

theorem follows_cons {c : Char} {rest : List Char} (h : isNumberChar c = false) :
    Follows (c :: rest) := by
  intro d hd
  obtain rfl : c = d := by simpa using hd
  exact h

/-- A run of number characters ends where something else follows. -/
theorem numberChars_append_inj {xs ys r s : List Char} (hx : ∀ c ∈ xs, isNumberChar c = true)
    (hy : ∀ c ∈ ys, isNumberChar c = true) (hr : Follows r) (hs : Follows s)
    (h : xs ++ r = ys ++ s) : xs = ys ∧ r = s := by
  induction xs generalizing ys with
  | nil =>
    cases ys with
    | nil => exact ⟨rfl, h⟩
    | cons y ys =>
      have := hr y (by rw [List.nil_append] at h; rw [h]; rfl)
      rw [hy y (by simp)] at this
      cases this
  | cons x xs ih =>
    cases ys with
    | nil =>
      have := hs x (by rw [List.nil_append] at h; rw [← h]; rfl)
      rw [hx x (by simp)] at this
      cases this
    | cons y ys =>
      simp only [List.cons_append, List.cons.injEq] at h
      obtain ⟨rfl, hrest⟩ := h
      obtain ⟨rfl, hrs⟩ := ih (fun c hc => hx c (List.mem_cons_of_mem _ hc))
        (fun c hc => hy c (List.mem_cons_of_mem _ hc)) hrest
      exact ⟨rfl, hrs⟩

/-- How finite floats are printed: each double in its own way, in the characters of numbers, and
never like an integer. -/
structure FloatText where
  text : ℚ → List Char
  injective : ∀ x y, Double.IsDouble x → Double.IsDouble y → text x = text y → x = y
  chars : ∀ x, ∀ c ∈ text x, isNumberChar c = true
  marked : ∀ x, '.' ∈ text x ∨ 'e' ∈ text x

namespace FloatText

variable (floats : FloatText)

/-- A number in decimal. -/
def writeNumber : Number → List Char
  | .posInt n => Nat.toDigits 10 n.toNat
  | .negInt n => '-' :: Nat.toDigits 10 n.toInt.natAbs
  | .float x => floats.text x

mutual

/-- `serde_json::to_string`. -/
def write : Value → List Char
  | .null => ['n', 'u', 'l', 'l']
  | .bool true => ['t', 'r', 'u', 'e']
  | .bool false => ['f', 'a', 'l', 's', 'e']
  | .number n => floats.writeNumber n
  | .string s => writeString s
  | .array values => '[' :: writeValues true values
  | .object fields => Char.ofNat 123 :: writeFields true fields

/-- The rest of an array, from its first value or from behind one. -/
def writeValues : (first : Bool) → List Value → List Char
  | _, [] => [']']
  | first, value :: values =>
    (if first then [] else [',']) ++ (write value ++ writeValues false values)

/-- The rest of an object, from its first entry or from behind one. -/
def writeFields : (first : Bool) → List (String × Value) → List Char
  | _, [] => [Char.ofNat 125]
  | first, (key, value) :: fields =>
    (if first then [] else [',']) ++
      (writeString key ++ ':' :: (write value ++ writeFields false fields))

end

variable {floats}

theorem toDigits_chars {n : ℕ} {c : Char} (hc : c ∈ Nat.toDigits 10 n) : c.isDigit = true :=
  Nat.isDigit_of_mem_toDigits (by decide) (by decide) hc

theorem toDigits_injective {m n : ℕ} (h : Nat.toDigits 10 m = Nat.toDigits 10 n) : m = n := by
  have := congrArg (Nat.ofDigitChars 10 · 0) h
  simpa [Nat.ofDigitChars_toDigits] using this

theorem writeNumber_chars (n : Number) : ∀ c ∈ floats.writeNumber n, isNumberChar c = true := by
  intro c hc
  cases n with
  | posInt n => simp [isNumberChar, toDigits_chars hc]
  | negInt n =>
    rcases List.mem_cons.mp hc with rfl | hc
    · rfl
    · simp [isNumberChar, toDigits_chars hc]
  | float x => exact floats.chars x c hc

theorem writeNumber_ne_nil (n : Number) : floats.writeNumber n ≠ [] := by
  cases n with
  | posInt n => exact Nat.toDigits_ne_nil
  | negInt n => exact List.cons_ne_nil _ _
  | float x =>
    intro h
    have := floats.marked x
    rw [show floats.text x = [] from h] at this
    simp at this

/-- An integer is not printed like a float. -/
theorem not_marked_of_digits {x : ℚ} {xs : List Char} (h : ∀ c ∈ xs, c.isDigit = true ∨ c = '-')
    (hx : xs = floats.text x) : False := by
  rcases floats.marked x with hdot | he
  · rcases h '.' (hx ▸ hdot) with h | h <;> exact absurd h (by decide)
  · rcases h 'e' (hx ▸ he) with h | h <;> exact absurd h (by decide)

/-- **A number has one text.** -/
theorem writeNumber_injective {m n : Number} (hm : m.Normal) (hn : n.Normal)
    (h : floats.writeNumber m = floats.writeNumber n) : m = n := by
  have hdigits : ∀ {k : ℕ}, ∀ c ∈ Nat.toDigits 10 k, c.isDigit = true ∨ c = '-' :=
    fun c hc => Or.inl (toDigits_chars hc)
  have hminus : ∀ {k : ℕ}, ∀ c ∈ '-' :: Nat.toDigits 10 k, c.isDigit = true ∨ c = '-' := by
    intro k c hc
    rcases List.mem_cons.mp hc with rfl | hc
    · exact Or.inr rfl
    · exact hdigits c hc
  have hsign : ∀ {a b : ℕ}, Nat.toDigits 10 a ≠ '-' :: Nat.toDigits 10 b := by
    intro a b hab
    have : '-' ∈ Nat.toDigits 10 a := by rw [hab]; simp
    exact absurd (toDigits_chars this) (by decide)
  cases m with
  | posInt a =>
    cases n with
    | posInt b => rw [UInt64.toNat_inj.mp (toDigits_injective h)]
    | negInt b => exact absurd h hsign
    | float y => exact (not_marked_of_digits hdigits h).elim
  | negInt a =>
    cases n with
    | posInt b => exact absurd h.symm hsign
    | negInt b =>
      have habs := toDigits_injective (List.cons.inj h).2
      have ha : a.toInt < 0 := Int64.lt_iff_toInt_lt.mp hm
      have hb : b.toInt < 0 := Int64.lt_iff_toInt_lt.mp hn
      have hab : a.toInt = b.toInt := by omega
      rw [Int64.toInt_inj.mp hab]
    | float y => exact (not_marked_of_digits hminus h).elim
  | float x =>
    cases n with
    | posInt b => exact (not_marked_of_digits hdigits h.symm).elim
    | negInt b => exact (not_marked_of_digits hminus h.symm).elim
    | float y => rw [floats.injective x y hm hn h]

/-! ### Values -/

/-- The first character of a value. -/
def startOf : Value → Char → Prop
  | .null, c => c = 'n'
  | .bool true, c => c = 't'
  | .bool false, c => c = 'f'
  | .number _, c => isNumberChar c = true
  | .string _, c => c = Char.ofNat 34
  | .array _, c => c = '['
  | .object _, c => c = Char.ofNat 123

theorem write_start (floats : FloatText) (v : Value) :
    ∃ c cs, floats.write v = c :: cs ∧ startOf v c := by
  cases v with
  | null => exact ⟨_, _, by rw [write], rfl⟩
  | bool b => cases b <;> exact ⟨_, _, by rw [write], rfl⟩
  | number n =>
    cases h : floats.writeNumber n with
    | nil => exact absurd h (writeNumber_ne_nil n)
    | cons c cs =>
      exact ⟨c, cs, by rw [write, h], writeNumber_chars n c (by rw [h]; simp)⟩
  | string s => exact ⟨_, _, by rw [write, writeString], rfl⟩
  | array values => exact ⟨_, _, by rw [write], rfl⟩
  | object fields => exact ⟨_, _, by rw [write], rfl⟩

/-- No value starts like the end of an array or of an object. -/
theorem startOf_ne_close {v : Value} {c : Char} (h : startOf v c) :
    c ≠ ']' ∧ c ≠ Char.ofNat 125 := by
  constructor <;> rintro rfl <;> cases v with
  | bool b => cases b <;> exact absurd (show _ = _ from h) (by decide)
  | _ => exact absurd (show _ = _ from h) (by decide)

/-- Which kind of value a text is, by its first character. -/
def kindOf (c : Char) : ℕ :=
  if isNumberChar c then 0 else if c = 'n' then 1 else if c = 't' then 2 else if c = 'f' then 3
  else if c = Char.ofNat 34 then 4 else if c = '[' then 5 else 6

/-- Which kind a value is. -/
def kind : Value → ℕ
  | .number _ => 0
  | .null => 1
  | .bool true => 2
  | .bool false => 3
  | .string _ => 4
  | .array _ => 5
  | .object _ => 6

theorem kindOf_start {v : Value} {c : Char} (h : startOf v c) : kindOf c = kind v := by
  cases v with
  | number n => rw [kindOf, if_pos (show isNumberChar c = true from h), kind]
  | bool b => cases b <;> exact (show c = _ from h) ▸ rfl
  | _ => exact (show c = _ from h) ▸ rfl

/-- What follows a value inside an array or an object. -/
theorem follows_writeValues {values : List Value} {rest : List Char} :
    Follows (floats.writeValues false values ++ rest) := by
  cases values <;> rw [writeValues] <;> exact follows_cons (by decide)

theorem follows_writeFields {fields : List (String × Value)} {rest : List Char} :
    Follows (floats.writeFields false fields ++ rest) := by
  cases fields with
  | nil => exact follows_cons (by decide)
  | cons field fields => exact follows_cons (by decide)

/-- An array that goes on does not end. -/
theorem writeValues_cons_ne_close {first : Bool} {value : Value} {values : List Value}
    {r s : List Char} : ']' :: r ≠ floats.writeValues first (value :: values) ++ s := by
  intro h
  obtain ⟨c, cs, hc, hstart⟩ := write_start floats value
  rw [writeValues, hc] at h
  cases first with
  | true => exact (startOf_ne_close hstart).1 (List.cons.inj h).1.symm
  | false => exact absurd (List.cons.inj h).1 (by decide)

/-- An object that goes on does not end. -/
theorem writeFields_cons_ne_close {first : Bool} {field : String × Value}
    {fields : List (String × Value)} {r s : List Char} :
    Char.ofNat 125 :: r ≠ floats.writeFields first (field :: fields) ++ s := by
  intro h
  rw [writeFields, writeString] at h
  cases first with
  | true => exact absurd (List.cons.inj h).1 (by decide)
  | false => exact absurd (List.cons.inj h).1 (by decide)

mutual

/-- **A value ends where it ends.** Equal texts, each followed by what may follow a value, are the
texts of one value, and what follows is equal. -/
theorem write_append_inj {v w : Value} {r s : List Char} (hv : v.All Value.NumbersNormal)
    (hw : w.All Value.NumbersNormal)
    (hr : Follows r) (hs : Follows s) (h : floats.write v ++ r = floats.write w ++ s) :
    v = w ∧ r = s := by
  obtain ⟨c, cs, hc, hstart⟩ := write_start floats v
  obtain ⟨d, ds, hd, hstart'⟩ := write_start floats w
  obtain rfl : c = d := by
    rw [hc, hd] at h
    exact (List.cons.inj h).1
  have hkind : kind v = kind w := (kindOf_start hstart).symm.trans (kindOf_start hstart')
  cases v with
  | null =>
    cases w with
    | null => exact ⟨rfl, List.append_cancel_left h⟩
    | bool b => cases b <;> exact absurd hkind (by simp [kind])
    | _ => exact absurd hkind (by simp [kind])
  | bool a =>
    cases w with
    | bool b =>
      obtain rfl : a = b := by cases a <;> cases b <;> first | rfl | cases hkind
      exact ⟨rfl, List.append_cancel_left h⟩
    | _ => cases a <;> exact absurd hkind (by simp [kind])
  | number m =>
    cases w with
    | number n =>
      rw [write, write] at h
      obtain ⟨htext, hrs⟩ :=
        numberChars_append_inj (writeNumber_chars m) (writeNumber_chars n) hr hs h
      exact ⟨by rw [writeNumber_injective hv hw htext], hrs⟩
    | bool b => cases b <;> exact absurd hkind (by simp [kind])
    | _ => exact absurd hkind (by simp [kind])
  | string a =>
    cases w with
    | string b =>
      rw [write, write] at h
      obtain ⟨rfl, hrs⟩ := writeString_append_inj h
      exact ⟨rfl, hrs⟩
    | bool b => cases b <;> exact absurd hkind (by simp [kind])
    | _ => exact absurd hkind (by simp [kind])
  | array vs =>
    cases w with
    | array ws =>
      rw [write, write] at h
      obtain ⟨rfl, hrs⟩ := writeValues_append_inj hv.2 hw.2 (List.cons.inj h).2
      exact ⟨rfl, hrs⟩
    | bool b => cases b <;> exact absurd hkind (by simp [kind])
    | _ => exact absurd hkind (by simp [kind])
  | object fs =>
    cases w with
    | object gs =>
      rw [write, write] at h
      obtain ⟨rfl, hrs⟩ := writeFields_append_inj hv.2 hw.2 (List.cons.inj h).2
      exact ⟨rfl, hrs⟩
    | bool b => cases b <;> exact absurd hkind (by simp [kind])
    | _ => exact absurd hkind (by simp [kind])

theorem writeValues_append_inj {first : Bool} {vs ws : List Value} {r s : List Char}
    (hv : Value.AllValues Value.NumbersNormal vs) (hw : Value.AllValues Value.NumbersNormal ws)
    (h : floats.writeValues first vs ++ r = floats.writeValues first ws ++ s) :
    vs = ws ∧ r = s := by
  cases vs with
  | nil =>
    cases ws with
    | nil => exact ⟨rfl, List.append_cancel_left h⟩
    | cons w ws => exact absurd h writeValues_cons_ne_close
  | cons v vs =>
    cases ws with
    | nil => exact absurd h.symm writeValues_cons_ne_close
    | cons w ws =>
      simp only [writeValues, List.append_assoc] at h
      have hvalue := List.append_cancel_left h
      obtain ⟨rfl, hrest⟩ :=
        write_append_inj hv.1 hw.1 follows_writeValues follows_writeValues hvalue
      obtain ⟨rfl, hrs⟩ := writeValues_append_inj hv.2 hw.2 hrest
      exact ⟨rfl, hrs⟩

theorem writeFields_append_inj {first : Bool} {fs gs : List (String × Value)} {r s : List Char}
    (hv : Value.AllFields Value.NumbersNormal fs) (hw : Value.AllFields Value.NumbersNormal gs)
    (h : floats.writeFields first fs ++ r = floats.writeFields first gs ++ s) :
    fs = gs ∧ r = s := by
  cases fs with
  | nil =>
    cases gs with
    | nil => exact ⟨rfl, List.append_cancel_left h⟩
    | cons g gs => exact absurd h writeFields_cons_ne_close
  | cons f fs =>
    cases gs with
    | nil => exact absurd h.symm writeFields_cons_ne_close
    | cons g gs =>
      obtain ⟨k, v⟩ := f
      obtain ⟨l, w⟩ := g
      simp only [writeFields, List.append_assoc, List.cons_append] at h
      obtain ⟨rfl, hcolon⟩ := writeString_append_inj (List.append_cancel_left h)
      have hvalue := (List.cons.inj hcolon).2
      obtain ⟨rfl, hrest⟩ :=
        write_append_inj hv.1 hw.1 follows_writeFields follows_writeFields hvalue
      obtain ⟨rfl, hrs⟩ := writeFields_append_inj hv.2 hw.2 hrest
      exact ⟨rfl, hrs⟩

end

/-- **The text of a value determines it.** -/
theorem write_injective {v w : Value} (hv : v.All Value.NumbersNormal)
    (hw : w.All Value.NumbersNormal)
    (h : floats.write v = floats.write w) : v = w := by
  have hend : Follows [] := fun c hc => by cases hc
  exact (write_append_inj hv hw hend hend (by rw [h])).1

end FloatText

end Json
