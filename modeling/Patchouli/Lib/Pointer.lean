import Patchouli.Lib.Json

/-!
# Pointer texts and the paths they address

`Lib.Json` proves that disjoint *token lists* address disjoint parts of a value. A program
compares pointer *texts*. The bridge is that unescaping a well-formed token loses nothing, so
that one token list extends another only when the text of the one extends the text of the other
at a `/`.

## Main results

* `Json.pointerWellFormed_iff` — a scan that skips over escapes decides the grammar
* `Json.unescape_injective` — on well-formed tokens
* `Json.pointerTokens_disjoint` — texts of which neither contains the other address disjoint paths
-/

namespace Json

/-! ### Well-formed tokens -/

/-- A reference token as RFC 6901 writes it: no `/`, and every `~` starts an escape. -/
def TokenWellFormed : List Char → Prop
  | [] => True
  | '~' :: '0' :: cs => TokenWellFormed cs
  | '~' :: '1' :: cs => TokenWellFormed cs
  | c :: cs => c ≠ '~' ∧ c ≠ '/' ∧ TokenWellFormed cs

/-- A pointer text: `/` and then characters whose `~` all start escapes. -/
def EscapesWellFormed : List Char → Prop
  | [] => True
  | '~' :: '0' :: cs => EscapesWellFormed cs
  | '~' :: '1' :: cs => EscapesWellFormed cs
  | c :: cs => c ≠ '~' ∧ EscapesWellFormed cs

/-- A non-root pointer. -/
def PointerWellFormed (pointer : String) : Prop :=
  ∃ cs, pointer.toList = '/' :: cs ∧ EscapesWellFormed cs

/-- What RFC 6901 asks of a non-root pointer: it starts with `/`, and whatever follows a `~` in it
starts with `0` or `1`. -/
def NonRootPointer (pointer : String) : Prop :=
  ['/'] <+: pointer.toList ∧ ∀ before after, pointer.toList = before ++ '~' :: after →
    after.head? = some '0' ∨ after.head? = some '1'

/-- Decoding a token from left to right, one escape at a time. -/
def decodeToken : List Char → List Char
  | '~' :: '0' :: cs => '~' :: decodeToken cs
  | '~' :: '1' :: cs => '/' :: decodeToken cs
  | c :: cs => c :: decodeToken cs
  | [] => []

/-- On a well-formed token the two replacement passes decode every escape once. -/
theorem unescape_eq_decodeToken {t : List Char} (h : TokenWellFormed t) :
    unescape t = decodeToken t := by
  induction t using decodeToken.induct with
  | case1 cs ih =>
    have := ih h
    simp only [unescape] at this
    simp [unescape, replaceEscape, decodeToken, this]
  | case2 cs ih =>
    have := ih h
    simp only [unescape] at this
    simp [unescape, replaceEscape, decodeToken, this]
  | case3 c cs h0 h1 ih =>
    obtain ⟨hc, -, hcs⟩ : c ≠ '~' ∧ c ≠ '/' ∧ TokenWellFormed cs := by
      rw [TokenWellFormed] at h
      · exact h
      · exact fun ds hd hds => h0 ds hd hds
      · exact fun ds hd hds => h1 ds hd hds
    have := ih hcs
    simp only [unescape] at this
    have hne : ∀ (digit by_ : Char) (ds : List Char),
        replaceEscape digit by_ (c :: ds) = c :: replaceEscape digit by_ ds := by
      intro digit by_ ds
      rw [replaceEscape]
      exact fun d es hd _ => hc hd
    rw [unescape, hne, hne, this, decodeToken]
    · exact fun ds hd hds => h0 ds hd hds
    · exact fun ds hd hds => h1 ds hd hds
  | case4 => rfl

/-- The first character of a decoded token tells which escape it came from. -/
theorem decodeToken_cons_cases {t : List Char} (h : TokenWellFormed t) {x : Char} {xs : List Char}
    (hd : decodeToken t = x :: xs) :
    ∃ rest, TokenWellFormed rest ∧ decodeToken rest = xs ∧
      ((x = '~' ∧ t = '~' :: '0' :: rest) ∨ (x = '/' ∧ t = '~' :: '1' :: rest) ∨
        (x ≠ '~' ∧ x ≠ '/' ∧ t = x :: rest)) := by
  cases t using decodeToken.fun_cases with
  | case1 cs =>
    simp only [decodeToken, List.cons.injEq] at hd
    exact ⟨cs, h, hd.2, Or.inl ⟨hd.1.symm, rfl⟩⟩
  | case2 cs =>
    simp only [decodeToken, List.cons.injEq] at hd
    exact ⟨cs, h, hd.2, Or.inr (Or.inl ⟨hd.1.symm, rfl⟩)⟩
  | case3 c cs h0 h1 =>
    rw [TokenWellFormed] at h
    · rw [decodeToken] at hd
      · simp only [List.cons.injEq] at hd
        obtain ⟨rfl, hxs⟩ := hd
        exact ⟨cs, h.2.2, hxs, Or.inr (Or.inr ⟨h.1, h.2.1, rfl⟩)⟩
      · exact fun ds hd hds => h0 ds hd hds
      · exact fun ds hd hds => h1 ds hd hds
    · exact fun ds hd hds => h0 ds hd hds
    · exact fun ds hd hds => h1 ds hd hds
  | case4 => simp [decodeToken] at hd

theorem decodeToken_eq_nil {t : List Char} (h : decodeToken t = []) : t = [] := by
  cases t using decodeToken.fun_cases with
  | case1 => simp [decodeToken] at h
  | case2 => simp [decodeToken] at h
  | case3 c cs h0 h1 =>
    rw [decodeToken] at h
    · cases h
    · exact fun ds hd hds => h0 ds hd hds
    · exact fun ds hd hds => h1 ds hd hds
  | case4 => rfl

theorem decodeToken_injective {s t : List Char} (hs : TokenWellFormed s) (ht : TokenWellFormed t)
    (h : decodeToken s = decodeToken t) : s = t := by
  induction hd : decodeToken s generalizing s t with
  | nil => rw [decodeToken_eq_nil hd, decodeToken_eq_nil (h.symm.trans hd)]
  | cons x xs ih =>
    obtain ⟨s', hs', hds, hcs⟩ := decodeToken_cons_cases hs hd
    obtain ⟨t', ht', hdt, hct⟩ := decodeToken_cons_cases ht (h.symm.trans hd)
    obtain rfl : s' = t' := ih hs' ht' (hds.trans hdt.symm) hds
    rcases hcs with ⟨rfl, rfl⟩ | ⟨rfl, rfl⟩ | ⟨h1, h2, rfl⟩ <;>
      rcases hct with ⟨hx, rfl⟩ | ⟨hx, rfl⟩ | ⟨hx, hx', rfl⟩ <;> simp_all

/-- **Unescaping loses nothing** on well-formed tokens. -/
theorem unescape_injective {s t : List Char} (hs : TokenWellFormed s) (ht : TokenWellFormed t)
    (h : unescape s = unescape t) : s = t := by
  rw [unescape_eq_decodeToken hs, unescape_eq_decodeToken ht] at h
  exact decodeToken_injective hs ht h

/-! ### The grammar -/

/-- Scanning over an escape skips no `~`. -/
theorem escapesWellFormed_iff (cs : List Char) :
    EscapesWellFormed cs ↔ ∀ before after, cs = before ++ '~' :: after →
      after.head? = some '0' ∨ after.head? = some '1' := by
  induction cs using EscapesWellFormed.induct with
  | case1 => simp [EscapesWellFormed]
  | case2 cs ih =>
    rw [EscapesWellFormed, ih]
    constructor
    · intro h before after hcs
      match before with
      | [] => exact Or.inl (by cases hcs; rfl)
      | [_] => cases hcs
      | _ :: _ :: before => exact h before after (by cases hcs; rfl)
    · intro h before after hcs
      exact h ('~' :: '0' :: before) after (by rw [hcs]; rfl)
  | case3 cs ih =>
    rw [EscapesWellFormed, ih]
    constructor
    · intro h before after hcs
      match before with
      | [] => exact Or.inr (by cases hcs; rfl)
      | [_] => cases hcs
      | _ :: _ :: before => exact h before after (by cases hcs; rfl)
    · intro h before after hcs
      exact h ('~' :: '1' :: before) after (by rw [hcs]; rfl)
  | case4 c cs h0 h1 ih =>
    rw [EscapesWellFormed, ih]
    · constructor
      · rintro ⟨hc, h⟩ before after hcs
        cases before with
        | nil => cases hcs; exact absurd rfl hc
        | cons d before => exact h before after (by cases hcs; rfl)
      · intro h
        refine ⟨?_, fun before after hcs => h (c :: before) after (by rw [hcs]; rfl)⟩
        rintro rfl
        cases cs with
        | nil => rcases h [] [] rfl with h | h <;> cases h
        | cons d ds =>
          rcases h [] (d :: ds) rfl with h | h
          · exact h0 ds rfl (by simpa using h)
          · exact h1 ds rfl (by simpa using h)
    · exact fun ds hd hds => h0 ds hd hds
    · exact fun ds hd hds => h1 ds hd hds

/-- **Scanning for escapes decides the grammar.** -/
theorem pointerWellFormed_iff (pointer : String) :
    PointerWellFormed pointer ↔ NonRootPointer pointer := by
  constructor
  · rintro ⟨cs, hcs, hescapes⟩
    refine ⟨⟨cs, hcs.symm⟩, fun before after hsplit => ?_⟩
    rw [hcs] at hsplit
    cases before with
    | nil => cases hsplit
    | cons d before =>
      exact (escapesWellFormed_iff cs).mp hescapes before after (by cases hsplit; rfl)
  · rintro ⟨⟨cs, hcs⟩, hescapes⟩
    refine ⟨cs, hcs.symm, (escapesWellFormed_iff cs).mpr fun before after hsplit => ?_⟩
    exact hescapes ('/' :: before) after (by rw [← hcs, hsplit]; rfl)

/-! ### Splitting at slashes -/

/-- The parts put back together with a `/` between them. -/
def joinSlash : List (List Char) → List Char
  | [] => []
  | [part] => part
  | part :: parts => part ++ '/' :: joinSlash parts

theorem splitSlash_ne_nil (cs : List Char) : splitSlash cs ≠ [] := by
  cases cs with
  | nil => simp [splitSlash]
  | cons c cs =>
    rw [splitSlash]
    cases splitSlash cs with
    | nil => simp
    | cons part parts => by_cases h : c = '/' <;> simp [h]

theorem joinSlash_splitSlash (cs : List Char) : joinSlash (splitSlash cs) = cs := by
  induction cs with
  | nil => rfl
  | cons c cs ih =>
    rw [splitSlash]
    cases hs : splitSlash cs with
    | nil => exact absurd hs (splitSlash_ne_nil cs)
    | cons part parts =>
      rw [hs] at ih
      by_cases hc : c = '/'
      · subst hc
        simp [joinSlash, ih]
      · simp only [hc, if_false]
        cases parts with
        | nil => simpa [joinSlash] using ih
        | cons p ps => simpa [joinSlash] using ih

theorem joinSlash_append {ps qs : List (List Char)} (hp : ps ≠ []) (hq : qs ≠ []) :
    joinSlash (ps ++ qs) = joinSlash ps ++ '/' :: joinSlash qs := by
  induction ps with
  | nil => exact absurd rfl hp
  | cons p ps ih =>
    cases ps with
    | nil =>
      cases qs with
      | nil => exact absurd rfl hq
      | cons q qs => rfl
    | cons p' ps =>
      have hrest := ih (by simp)
      simp only [List.cons_append] at hrest ⊢
      simp only [joinSlash, hrest, List.append_assoc, List.cons_append]

/-- The parts of a text with well-formed escapes are well-formed tokens. -/
theorem tokenWellFormed_of_mem_splitSlash {cs : List Char} (h : EscapesWellFormed cs) :
    ∀ t ∈ splitSlash cs, TokenWellFormed t := by
  induction cs using EscapesWellFormed.induct with
  | case1 => simp [splitSlash, TokenWellFormed]
  | case2 cs ih | case3 cs ih =>
    have hall := ih h
    simp only [splitSlash]
    cases hs : splitSlash cs with
    | nil => exact absurd hs (splitSlash_ne_nil cs)
    | cons part parts =>
      rw [hs, List.forall_mem_cons] at hall
      simpa [TokenWellFormed] using hall
  | case4 c cs h0 h1 ih =>
    obtain ⟨hc, hcs⟩ : c ≠ '~' ∧ EscapesWellFormed cs := by
      rw [EscapesWellFormed] at h
      · exact h
      · exact fun ds hd hds => h0 ds hd hds
      · exact fun ds hd hds => h1 ds hd hds
    have hall := ih hcs
    rw [splitSlash]
    cases hs : splitSlash cs with
    | nil => exact absurd hs (splitSlash_ne_nil cs)
    | cons part parts =>
      rw [hs, List.forall_mem_cons] at hall
      by_cases hslash : c = '/'
      · simp only [hslash, if_true, List.forall_mem_cons]
        exact ⟨trivial, hall.1, hall.2⟩
      · simp only [hslash, if_false, List.forall_mem_cons]
        refine ⟨?_, hall.2⟩
        rw [TokenWellFormed]
        · exact ⟨hc, hslash, hall.1⟩
        · exact fun ds hd _ => hc hd
        · exact fun ds hd _ => hc hd

/-! ### Texts and paths -/

theorem isPrefix_of_map_isPrefix {α β : Type*} {f : α → β} {xs ys : List α}
    (hf : ∀ x ∈ xs, ∀ y ∈ ys, f x = f y → x = y) (h : xs.map f <+: ys.map f) : xs <+: ys := by
  induction xs generalizing ys with
  | nil => exact List.nil_prefix
  | cons x xs ih =>
    cases ys with
    | nil => simp at h
    | cons y ys =>
      rw [List.map_cons, List.map_cons, List.cons_prefix_cons] at h
      obtain rfl : x = y := hf x (by simp) y (by simp) h.1
      refine List.cons_prefix_cons.mpr ⟨rfl, ih (fun a ha b hb => ?_) h.2⟩
      exact hf a (List.mem_cons_of_mem _ ha) b (List.mem_cons_of_mem _ hb)

/-- The path of a pointer extends another's only where its text does, at a `/`. -/
theorem prefix_of_pointerTokens_prefix {p q : String} (hp : PointerWellFormed p)
    (hq : PointerWellFormed q) {ps qs : List (List Char)} (hps : pointerTokens p = some ps)
    (hqs : pointerTokens q = some qs) (h : ps <+: qs) :
    p = q ∨ ∃ rest, q.toList = p.toList ++ '/' :: rest := by
  obtain ⟨cs, hcs, hwp⟩ := hp
  obtain ⟨ds, hds, hwq⟩ := hq
  simp only [pointerTokens, hcs, Option.some.injEq] at hps
  simp only [pointerTokens, hds, Option.some.injEq] at hqs
  subst hps hqs
  have hpre : splitSlash cs <+: splitSlash ds := by
    refine isPrefix_of_map_isPrefix (fun x hx y hy hxy => ?_) h
    exact unescape_injective (tokenWellFormed_of_mem_splitSlash hwp x hx)
      (tokenWellFormed_of_mem_splitSlash hwq y hy) hxy
  obtain ⟨rest, hrest⟩ := hpre
  have hjoin : joinSlash (splitSlash cs ++ rest) = ds := by rw [hrest, joinSlash_splitSlash]
  rcases List.eq_nil_or_concat rest with rfl | ⟨_, _, hne⟩
  · left
    rw [List.append_nil, joinSlash_splitSlash] at hjoin
    exact String.toList_injective (by rw [hcs, hds, hjoin])
  · right
    rw [joinSlash_append (splitSlash_ne_nil cs) (by simp [hne]), joinSlash_splitSlash] at hjoin
    exact ⟨joinSlash rest, by rw [hds, hcs, ← hjoin]; rfl⟩

/-- **Texts apart, paths apart.** When neither pointer text equals or contains the other, the
paths they address are disjoint. -/
theorem pointerTokens_disjoint {p q : String} (hp : PointerWellFormed p)
    (hq : PointerWellFormed q) (hne : p ≠ q)
    (hpq : ∀ rest, q.toList ≠ p.toList ++ '/' :: rest)
    (hqp : ∀ rest, p.toList ≠ q.toList ++ '/' :: rest)
    {ps qs : List (List Char)} (hps : pointerTokens p = some ps) (hqs : pointerTokens q = some qs) :
    Disjoint ps qs := by
  constructor
  · intro h
    rcases prefix_of_pointerTokens_prefix hp hq hps hqs h with h | ⟨rest, h⟩
    · exact hne h
    · exact hpq rest h
  · intro h
    rcases prefix_of_pointerTokens_prefix hq hp hqs hps h with h | ⟨rest, h⟩
    · exact hne h.symm
    · exact hqp rest h

theorem PointerWellFormed.pointerTokens {p : String} (h : PointerWellFormed p) :
    ∃ ps, Json.pointerTokens p = some ps := by
  obtain ⟨cs, hcs, -⟩ := h
  exact ⟨(splitSlash cs).map unescape, by simp [Json.pointerTokens, hcs]⟩

end Json
