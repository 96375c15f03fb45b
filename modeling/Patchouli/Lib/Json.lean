import Mathlib.Algebra.Group.Nat.Defs
import Mathlib.Data.List.Basic
import Mathlib.Data.List.Induction
import Mathlib.Data.Rat.Init

/-!
# JSON values and JSON pointers

The data model of `serde_json` as far as a program can observe it: values, structural equality,
and the two pointer operations `Value::pointer` and assignment through `Value::pointer_mut`.

An object is the list of its entries in key order, which is how `serde_json::Map` iterates when
it is a `BTreeMap`. Nothing below needs the order or the absence of duplicates: a lookup finds
the first entry, and an assignment replaces the same one.

A pointer is walked token by token, so the theory is stated for token lists; the text form is
parsed by `pointerTokens`. Two facts carry everything that is proved about rule paths later:

* distinct tokens select distinct children (`Value.child_replaceChild_of_ne`), for arrays because
  an index has one decimal spelling only (`parseIndex_injective`);
* so two token lists of which neither is a prefix of the other address disjoint parts of every
  value (`Value.get_set_of_disjoint`, `Value.set_comm_of_disjoint`).

## Main definitions

* `Json.Value`, `Json.Number`
* `Json.pointerTokens`, `Json.Value.pointer`, `Json.Value.setPointer`
* `Json.Disjoint` — neither token list extends the other
-/

namespace Json

/-- A JSON number, in the three representations `serde_json` keeps apart. A finite float is the
rational it denotes. -/
inductive Number where
  | posInt (n : UInt64)
  | negInt (n : Int64)
  | float (x : ℚ)
  deriving DecidableEq

/-- A JSON value. Objects list their entries in key order. -/
inductive Value where
  | null
  | bool (b : Bool)
  | number (n : Number)
  | string (s : String)
  | array (values : List Value)
  | object (fields : List (String × Value))

namespace Value

/-! ### Structural equality -/

mutual

/-- Structural equality of values. -/
def decEq : (v w : Value) → Decidable (v = w)
  | null, null => isTrue rfl
  | bool a, bool b =>
    if h : a = b then isTrue (h ▸ rfl) else isFalse fun e => h (by injection e)
  | number a, number b =>
    if h : a = b then isTrue (h ▸ rfl) else isFalse fun e => h (by injection e)
  | string a, string b =>
    if h : a = b then isTrue (h ▸ rfl) else isFalse fun e => h (by injection e)
  | array a, array b =>
    match decEqValues a b with
    | isTrue h => isTrue (h ▸ rfl)
    | isFalse h => isFalse fun e => h (by injection e)
  | object a, object b =>
    match decEqFields a b with
    | isTrue h => isTrue (h ▸ rfl)
    | isFalse h => isFalse fun e => h (by injection e)
  | null, bool _ | null, number _ | null, string _ | null, array _ | null, object _
  | bool _, null | bool _, number _ | bool _, string _ | bool _, array _ | bool _, object _
  | number _, null | number _, bool _ | number _, string _ | number _, array _
  | number _, object _
  | string _, null | string _, bool _ | string _, number _ | string _, array _
  | string _, object _
  | array _, null | array _, bool _ | array _, number _ | array _, string _ | array _, object _
  | object _, null | object _, bool _ | object _, number _ | object _, string _
  | object _, array _ => isFalse (by intro e; cases e)

/-- Structural equality of array contents. -/
def decEqValues : (vs ws : List Value) → Decidable (vs = ws)
  | [], [] => isTrue rfl
  | [], _ :: _ | _ :: _, [] => isFalse (by intro e; cases e)
  | v :: vs, w :: ws =>
    match decEq v w with
    | isTrue h =>
      match decEqValues vs ws with
      | isTrue h' => isTrue (h ▸ h' ▸ rfl)
      | isFalse h' => isFalse fun e => h' (by injection e)
    | isFalse h => isFalse fun e => h (by injection e)

/-- Structural equality of object contents. -/
def decEqFields : (fs gs : List (String × Value)) → Decidable (fs = gs)
  | [], [] => isTrue rfl
  | [], _ :: _ | _ :: _, [] => isFalse (by intro e; cases e)
  | (k, v) :: fs, (l, w) :: gs =>
    if hk : k = l then
      match decEq v w with
      | isTrue h =>
        match decEqFields fs gs with
        | isTrue h' => isTrue (hk ▸ h ▸ h' ▸ rfl)
        | isFalse h' => isFalse fun e => h' (by injection e)
      | isFalse h => isFalse fun e => h (by injection e with e; injection e)
    else isFalse fun e => hk (by injection e with e; injection e)

end

instance : DecidableEq Value := decEq

end Value

/-! ### Array indices -/

/-- The value of one decimal digit. -/
def digitValue (c : Char) : Option ℕ :=
  if '0' ≤ c ∧ c ≤ '9' then some (c.toNat - '0'.toNat) else none

/-- The number a digit string denotes, continuing from `acc`. -/
def decimalFrom : ℕ → List Char → Option ℕ
  | acc, [] => some acc
  | acc, c :: cs =>
    match digitValue c with
    | some d => decimalFrom (10 * acc + d) cs
    | none => none

/-- An array index as `serde_json` reads a pointer token: decimal digits without a sign and
without leading zeros, below `usize::MAX`. -/
def parseIndex (token : List Char) : Option ℕ :=
  match token with
  | [] => none
  | c :: cs =>
    if c = '0' ∧ cs ≠ [] then none
    else
      match decimalFrom 0 (c :: cs) with
      | some n => if n < 2 ^ 64 then some n else none
      | none => none

theorem digitValue_lt {c : Char} {d : ℕ} (h : digitValue c = some d) : d < 10 := by
  simp only [digitValue] at h
  split at h
  · rename_i hc
    have h9 : c.toNat ≤ '9'.toNat := hc.2
    have h0 : '0'.toNat ≤ c.toNat := hc.1
    simp only [Option.some.injEq] at h
    have : '9'.toNat = 57 := rfl
    have : '0'.toNat = 48 := rfl
    omega
  · cases h

theorem digitValue_injective {c c' : Char} {d : ℕ} (h : digitValue c = some d)
    (h' : digitValue c' = some d) : c = c' := by
  simp only [digitValue] at h h'
  split at h <;> split at h'
  · rename_i hc hc'
    have h0 : '0'.toNat ≤ c.toNat := hc.1
    have h0' : '0'.toNat ≤ c'.toNat := hc'.1
    simp only [Option.some.injEq] at h h'
    have hn : c.toNat = c'.toNat := by omega
    exact Char.ext (UInt32.toNat_inj.mp hn)
  all_goals simp_all

theorem digitValue_eq_zero {c : Char} (h : digitValue c = some 0) : c = '0' :=
  digitValue_injective h rfl

/-- Reading digits from the left is reading all but the last, then the last. -/
theorem decimalFrom_concat (acc : ℕ) (cs : List Char) (c : Char) :
    decimalFrom acc (cs ++ [c]) =
      (decimalFrom acc cs).bind fun n => (digitValue c).map fun d => 10 * n + d := by
  induction cs generalizing acc with
  | nil => simp only [List.nil_append, decimalFrom]; cases digitValue c <;> rfl
  | cons x xs ih =>
    simp only [List.cons_append, decimalFrom]
    cases digitValue x with
    | none => rfl
    | some d => exact ih _

/-- A digit string without a leading zero denotes a positive number. -/
theorem decimalFrom_pos {c : Char} {cs : List Char} {n : ℕ} (hc : c ≠ '0')
    (h : decimalFrom 0 (c :: cs) = some n) : 0 < n := by
  induction cs using List.reverseRecOn generalizing n with
  | nil =>
    simp only [decimalFrom] at h
    cases hd : digitValue c with
    | none => simp [hd] at h
    | some d =>
      simp only [hd, Option.some.injEq] at h
      rcases Nat.eq_zero_or_pos d with rfl | hpos
      · exact absurd (digitValue_eq_zero hd) hc
      · omega
  | append_singleton cs x ih =>
    rw [← List.cons_append, decimalFrom_concat] at h
    obtain ⟨m, hm, hrest⟩ := Option.bind_eq_some_iff.mp h
    obtain ⟨d, -, hn⟩ := Option.map_eq_some_iff.mp hrest
    have := ih hm
    omega

/-- Without leading zeros, a number has one spelling. -/
theorem decimalFrom_injective {xs ys : List Char} {n : ℕ} (hx : xs ≠ [] → xs.head? ≠ some '0')
    (hy : ys ≠ [] → ys.head? ≠ some '0') (h : decimalFrom 0 xs = some n)
    (h' : decimalFrom 0 ys = some n) : xs = ys := by
  induction xs using List.reverseRecOn generalizing ys n with
  | nil =>
    simp only [decimalFrom, Option.some.injEq] at h
    cases ys with
    | nil => rfl
    | cons y ys =>
      have := decimalFrom_pos (by simpa using hy) h'
      omega
  | append_singleton xs x ih =>
    rcases List.eq_nil_or_concat ys with rfl | ⟨ys, y, rfl⟩
    · simp only [decimalFrom, Option.some.injEq] at h'
      cases hxs : xs ++ [x] with
      | nil => rfl
      | cons z zs =>
        rw [hxs] at h hx
        have := decimalFrom_pos (by simpa using hx) h
        omega
    · rw [List.concat_eq_append] at hy h' ⊢
      rw [decimalFrom_concat] at h h'
      obtain ⟨m, hm, hrest⟩ := Option.bind_eq_some_iff.mp h
      obtain ⟨d, hd, hn⟩ := Option.map_eq_some_iff.mp hrest
      obtain ⟨m', hm', hrest'⟩ := Option.bind_eq_some_iff.mp h'
      obtain ⟨d', hd', hn'⟩ := Option.map_eq_some_iff.mp hrest'
      have hlt := digitValue_lt hd
      have hlt' := digitValue_lt hd'
      obtain rfl : d = d' := by omega
      obtain rfl : m = m' := by omega
      obtain rfl : x = y := digitValue_injective hd hd'
      have hhead : ∀ {zs : List Char} {z : Char}, (zs ++ [z] ≠ [] → (zs ++ [z]).head? ≠ some '0') →
          zs ≠ [] → zs.head? ≠ some '0' := by
        intro zs z hz hne
        cases zs with
        | nil => exact absurd rfl hne
        | cons w ws => simpa using hz
      rw [ih (hhead hx) (hhead hy) hm hm']

/-- **An index has one spelling.** Two pointer tokens that read as the same array index are the
same token. -/
theorem parseIndex_injective {s t : List Char} {n : ℕ} (hs : parseIndex s = some n)
    (ht : parseIndex t = some n) : s = t := by
  have key : ∀ {u : List Char}, parseIndex u = some n →
      decimalFrom 0 u = some n ∧ (u = ['0'] ∨ (u ≠ [] → u.head? ≠ some '0')) := by
    intro u hu
    cases u with
    | nil => simp [parseIndex] at hu
    | cons c cs =>
      simp only [parseIndex] at hu
      split at hu
      · cases hu
      · rename_i hlead
        cases hd : decimalFrom 0 (c :: cs) with
        | none => simp [hd] at hu
        | some m =>
          simp only [hd] at hu
          split at hu
          · simp only [Option.some.injEq] at hu
            subst hu
            refine ⟨rfl, ?_⟩
            by_cases hc : c = '0'
            · left
              have : cs = [] := by
                by_contra hne
                exact hlead ⟨hc, hne⟩
              rw [hc, this]
            · exact Or.inr fun _ => by simpa using hc
          · cases hu
  obtain ⟨hds, hs0⟩ := key hs
  obtain ⟨hdt, ht0⟩ := key ht
  have hzero : decimalFrom 0 ['0'] = some 0 := by decide
  have pos : ∀ {u : List Char}, parseIndex u = some n → decimalFrom 0 u = some n →
      (u ≠ [] → u.head? ≠ some '0') → 0 < n := by
    intro u hu hd hne
    cases u with
    | nil => simp [parseIndex] at hu
    | cons c cs => exact decimalFrom_pos (by simpa using hne) hd
  rcases hs0 with rfl | hs0 <;> rcases ht0 with rfl | ht0
  · rfl
  · have := pos ht hdt ht0
    rw [hzero, Option.some.injEq] at hds
    omega
  · have := pos hs hds hs0
    rw [hzero, Option.some.injEq] at hdt
    omega
  · exact decimalFrom_injective hs0 ht0 hds hdt

/-! ### Pointer tokens -/

/-- Split at every `/`, keeping empty parts. -/
def splitSlash : List Char → List (List Char)
  | [] => [[]]
  | c :: cs =>
    match splitSlash cs with
    | [] => [[c]]
    | part :: parts => if c = '/' then [] :: part :: parts else (c :: part) :: parts

/-- `str::replace` of the two-character escape `~digit` by one character. -/
def replaceEscape (digit by_ : Char) : List Char → List Char
  | '~' :: c :: cs =>
    if c = digit then by_ :: replaceEscape digit by_ cs
    else '~' :: replaceEscape digit by_ (c :: cs)
  | c :: cs => c :: replaceEscape digit by_ cs
  | [] => []

/-- A reference token, unescaped as `token.replace("~1", "/").replace("~0", "~")`. -/
def unescape (token : List Char) : List Char :=
  replaceEscape '0' '~' (replaceEscape '1' '/' token)

/-- The reference tokens of a pointer; `none` when the text is neither empty nor starts with
`/`. -/
def pointerTokens (pointer : String) : Option (List (List Char)) :=
  match pointer.toList with
  | [] => some []
  | '/' :: cs => some ((splitSlash cs).map unescape)
  | _ => none

namespace Value

/-! ### Walking a token list -/

/-- The first entry under a key. -/
def field (token : List Char) : List (String × Value) → Option Value
  | [] => none
  | (k, v) :: fs => if k.toList = token then some v else field token fs

/-- Overwrite the first entry under a key. -/
def replaceField (token : List Char) (new : Value) : List (String × Value) → List (String × Value)
  | [] => []
  | (k, v) :: fs =>
    if k.toList = token then (k, new) :: fs else (k, v) :: replaceField token new fs

/-- The child a token selects. -/
def child (v : Value) (token : List Char) : Option Value :=
  match v with
  | object fs => field token fs
  | array vs => (parseIndex token).bind (vs[·]?)
  | _ => none

/-- Overwrite the child a token selects; nothing happens where there is none. -/
def replaceChild (v : Value) (token : List Char) (new : Value) : Value :=
  match v with
  | object fs => object (replaceField token new fs)
  | array vs =>
    match parseIndex token with
    | some i => array (vs.set i new)
    | none => array vs
  | other => other

/-- The value below a token list. -/
def get : Value → List (List Char) → Option Value
  | v, [] => some v
  | v, t :: ts => (v.child t).bind (get · ts)

/-- Overwrite the value below a token list; nothing happens where the path is absent. -/
def set : Value → List (List Char) → Value → Value
  | _, [], new => new
  | v, t :: ts, new =>
    match v.child t with
    | some c => v.replaceChild t (set c ts new)
    | none => v

/-- `Value::pointer`. -/
def pointer (v : Value) (p : String) : Option Value :=
  (pointerTokens p).bind v.get

/-- `*value.pointer_mut(p) = new`, where the pointer resolves. -/
def setPointer (v : Value) (p : String) (new : Value) : Value :=
  match pointerTokens p with
  | some ts => v.set ts new
  | none => v

/-- `Value::as_str`. -/
def asStr : Value → Option String
  | string s => some s
  | _ => none

/-- `Value::as_array`. -/
def asArray : Value → Option (List Value)
  | array vs => some vs
  | _ => none

/-! ### One step -/

theorem field_replaceField_self {token : List Char} {new c : Value} :
    ∀ {fs : List (String × Value)}, field token fs = some c →
      field token (replaceField token new fs) = some new
  | (k, v) :: fs, h => by
    by_cases hk : k.toList = token
    · simp [replaceField, field, hk]
    · simp only [field, hk, if_false] at h
      simp only [replaceField, field, hk, if_false]
      exact field_replaceField_self h

theorem field_replaceField_of_ne {token other : List Char} {new : Value} (hne : other ≠ token) :
    ∀ fs : List (String × Value), field other (replaceField token new fs) = field other fs
  | [] => rfl
  | (k, v) :: fs => by
    by_cases hk : k.toList = token
    · simp [replaceField, field, hk, hne.symm]
    · simp only [replaceField, field, hk, if_false]
      rw [field_replaceField_of_ne hne fs]

theorem replaceField_replaceField_self {token : List Char} {a b : Value} :
    ∀ fs : List (String × Value),
      replaceField token b (replaceField token a fs) = replaceField token b fs
  | [] => rfl
  | (k, v) :: fs => by
    by_cases hk : k.toList = token
    · simp [replaceField, hk]
    · simp [replaceField, hk, replaceField_replaceField_self fs]

theorem replaceField_comm {s t : List Char} {a b : Value} (hne : s ≠ t) :
    ∀ fs : List (String × Value),
      replaceField s a (replaceField t b fs) = replaceField t b (replaceField s a fs)
  | [] => rfl
  | (k, v) :: fs => by
    by_cases hs : k.toList = s
    · simp [replaceField, hs, hne]
    · by_cases ht : k.toList = t
      · simp [replaceField, ht, hne.symm]
      · simp [replaceField, hs, ht, replaceField_comm hne fs]

theorem replaceField_field {token : List Char} {c : Value} :
    ∀ {fs : List (String × Value)}, field token fs = some c → replaceField token c fs = fs
  | (k, v) :: fs, h => by
    by_cases hk : k.toList = token
    · simp only [field, hk, if_true, Option.some.injEq] at h
      simp [replaceField, hk, h]
    · simp only [field, hk, if_false] at h
      simp [replaceField, hk, replaceField_field h]

theorem child_replaceChild_self {token : List Char} {v c : Value} (new : Value)
    (h : v.child token = some c) : (v.replaceChild token new).child token = some new := by
  cases v with
  | object fs => exact field_replaceField_self h
  | array vs =>
    obtain ⟨i, hi, hget⟩ := Option.bind_eq_some_iff.mp h
    have hlt : i < vs.length := (List.getElem?_eq_some_iff.mp hget).1
    simp [replaceChild, child, hi, hlt]
  | null | bool | number | string => simp [child] at h

/-- Replacing one child leaves the children under other tokens alone. -/
theorem child_replaceChild_of_ne {token other : List Char} (hne : other ≠ token) (v new : Value) :
    (v.replaceChild token new).child other = v.child other := by
  cases v with
  | object fs => exact field_replaceField_of_ne hne fs
  | array vs =>
    cases hi : parseIndex token with
    | none => simp [replaceChild, child, hi]
    | some i =>
      cases hj : parseIndex other with
      | none => simp [replaceChild, child, hi, hj]
      | some j =>
        have hij : i ≠ j := by
          rintro rfl
          exact hne (parseIndex_injective hj hi)
        simp [replaceChild, child, hi, hj, List.getElem?_set, hij]
  | null | bool | number | string => rfl

theorem replaceChild_replaceChild_self (token : List Char) (v a b : Value) :
    (v.replaceChild token a).replaceChild token b = v.replaceChild token b := by
  cases v with
  | object fs => simp [replaceChild, replaceField_replaceField_self]
  | array vs => cases hi : parseIndex token <;> simp [replaceChild, hi]
  | null | bool | number | string => rfl

theorem replaceChild_comm {s t : List Char} (hne : s ≠ t) (v a b : Value) :
    (v.replaceChild t b).replaceChild s a = (v.replaceChild s a).replaceChild t b := by
  cases v with
  | object fs => simp [replaceChild, replaceField_comm hne]
  | array vs =>
    cases hs : parseIndex s with
    | none => cases ht : parseIndex t <;> simp [replaceChild, hs, ht]
    | some i =>
      cases ht : parseIndex t with
      | none => simp [replaceChild, hs, ht]
      | some j =>
        have hij : i ≠ j := by
          rintro rfl
          exact hne (parseIndex_injective hs ht)
        simp [replaceChild, hs, ht, List.set_comm _ _ hij]
  | null | bool | number | string => rfl

theorem replaceChild_child {token : List Char} {v c : Value} (h : v.child token = some c) :
    v.replaceChild token c = v := by
  cases v with
  | object fs => simp only [replaceChild]; rw [replaceField_field h]
  | array vs =>
    obtain ⟨i, hi, hget⟩ := Option.bind_eq_some_iff.mp h
    obtain ⟨hlt, rfl⟩ := List.getElem?_eq_some_iff.mp hget
    simp [replaceChild, hi]
  | null | bool | number | string => simp [child] at h

end Value

/-! ### Disjoint paths -/

/-- Neither token list extends the other: the paths part at some token. -/
def Disjoint (p q : List (List Char)) : Prop := ¬ p <+: q ∧ ¬ q <+: p

theorem Disjoint.symm {p q : List (List Char)} (h : Disjoint p q) : Disjoint q p := ⟨h.2, h.1⟩

theorem Disjoint.cons {t : List Char} {p q : List (List Char)} (h : Disjoint (t :: p) (t :: q)) :
    Disjoint p q :=
  ⟨fun hp => h.1 (List.cons_prefix_cons.mpr ⟨rfl, hp⟩),
    fun hq => h.2 (List.cons_prefix_cons.mpr ⟨rfl, hq⟩)⟩

namespace Value

variable {p q : List (List Char)}

/-- **Read after write.** -/
theorem get_set_self {v c : Value} (new : Value) (h : v.get p = some c) :
    (v.set p new).get p = some new := by
  induction p generalizing v with
  | nil => rfl
  | cons t ts ih =>
    obtain ⟨d, hd, hget⟩ := Option.bind_eq_some_iff.mp h
    simp only [set, hd, get]
    rw [child_replaceChild_self _ hd]
    exact ih hget

/-- **Reading a disjoint path.** An assignment is not seen there. -/
theorem get_set_of_disjoint (hpq : Disjoint p q) (v new : Value) :
    (v.set p new).get q = v.get q := by
  induction p generalizing v q with
  | nil => exact absurd List.nil_prefix hpq.1
  | cons s ss ih =>
    cases q with
    | nil => exact absurd List.nil_prefix hpq.2
    | cons t ts =>
      cases hc : v.child s with
      | none => simp [set, hc]
      | some c =>
        simp only [set, hc, get]
        by_cases hst : t = s
        · subst hst
          rw [child_replaceChild_self _ hc, hc]
          exact ih hpq.cons c
        · rw [child_replaceChild_of_ne hst]

/-- The last assignment to a path wins. -/
theorem set_set_self (v a b : Value) : (v.set p a).set p b = v.set p b := by
  induction p generalizing v with
  | nil => rfl
  | cons t ts ih =>
    cases hc : v.child t with
    | none => simp [set, hc]
    | some c =>
      simp only [set, hc, child_replaceChild_self _ hc]
      rw [replaceChild_replaceChild_self, ih]

/-- Assignments to disjoint paths commute. -/
theorem set_comm_of_disjoint (hpq : Disjoint p q) (v a b : Value) :
    (v.set p a).set q b = (v.set q b).set p a := by
  induction p generalizing v q with
  | nil => exact absurd List.nil_prefix hpq.1
  | cons s ss ih =>
    cases q with
    | nil => exact absurd List.nil_prefix hpq.2
    | cons t ts =>
      by_cases hst : s = t
      · subst hst
        cases hc : v.child s with
        | none => simp [set, hc]
        | some c =>
          simp only [set, hc, child_replaceChild_self _ hc]
          rw [replaceChild_replaceChild_self, replaceChild_replaceChild_self, ih hpq.cons]
      · cases hs : v.child s with
        | none =>
          cases ht : v.child t with
          | none => simp [set, hs, ht]
          | some d => simp [set, hs, ht, child_replaceChild_of_ne hst]
        | some c =>
          cases ht : v.child t with
          | none => simp [set, hs, ht, child_replaceChild_of_ne (Ne.symm hst)]
          | some d =>
            simp only [set, hs, ht, child_replaceChild_of_ne (Ne.symm hst),
              child_replaceChild_of_ne hst]
            rw [replaceChild_comm (Ne.symm hst)]

/-- Writing back what is there changes nothing. -/
theorem set_get {v c : Value} (h : v.get p = some c) : v.set p c = v := by
  induction p generalizing v with
  | nil => simpa [get, set] using h.symm
  | cons t ts ih =>
    obtain ⟨d, hd, hget⟩ := Option.bind_eq_some_iff.mp h
    simp only [set, hd]
    rw [ih hget, replaceChild_child hd]

end Value

end Json
