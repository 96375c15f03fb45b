import Mathlib.Data.List.Basic
import Mathlib.Data.List.Forall2

/-!
# Fallible steps

A step that may fail is an `Except`. Sequences are taken apart by `Except.bind_eq_ok`; a loop
that stops at the first failure is `List.foldlM`, and these are its induction rules: what every
turn preserves the loop preserves (`foldlM_rel`, `foldlM_inv`), what every turn can continue from
the loop completes from (`foldlM_isOk`, `foldlM_isOk_iff`), a completed loop made every turn
(`foldlM_turn`) and kept what it did (`foldlM_turn_rel`), a loop fails as one of its turns does
(`foldlM_error`), the first that does (`foldlM_error_iff`), and what a `List.mapM` collects was made
element by element (`mapM_forall₂`).

Where both ends matter, `Except.Meets E P` says of a computation that its errors satisfy `E` and its
value satisfies `P`; `Except.Agrees R` says of two that they fail alike or succeed with values that
`R` relates. Both have a rule for each way to build a computation.
-/

namespace Except

variable {ε : Type*} {α β : Type}

/-- A sequence of fallible steps succeeds when each does. -/
theorem bind_eq_ok {x : Except ε α} {f : α → Except ε β} {b : β} :
    x >>= f = .ok b ↔ ∃ a, x = .ok a ∧ f a = .ok b := by
  cases x with
  | error e => simp [bind, Except.bind]
  | ok a => simp [bind, Except.bind]

theorem map_eq_ok {x : Except ε α} {f : α → β} {b : β} :
    f <$> x = .ok b ↔ ∃ a, x = .ok a ∧ f a = b := by
  cases x with
  | error e => simp [Functor.map, Except.map]
  | ok a => simp [Functor.map, Except.map]

theorem mapError_eq_ok {ε' : Type*} {x : Except ε α} {f : ε → ε'} {a : α} :
    x.mapError f = .ok a ↔ x = .ok a := by
  cases x <;> simp [Except.mapError]

theorem mapError_eq_error {ε' : Type*} {x : Except ε α} {f : ε → ε'} {e : ε'} :
    x.mapError f = .error e ↔ ∃ cause, x = .error cause ∧ f cause = e := by
  cases x <;> simp [Except.mapError]

@[simp] theorem pure_eq_ok (a : α) : (pure a : Except ε α) = .ok a := rfl

/-! ### Loops -/

variable {f : α → β → Except ε α} {init result : α}

theorem foldlM_cons_eq_ok {x : β} {xs : List β} :
    (x :: xs).foldlM f init = .ok result ↔
      ∃ next, f init x = .ok next ∧ xs.foldlM f next = .ok result := by
  rw [List.foldlM_cons, bind_eq_ok]

/-- A transitive relation between the states before and after a turn holds across the loop. -/
theorem foldlM_rel {R : α → α → Prop} (hrefl : ∀ a, R a a)
    (htrans : ∀ {a b c}, R a b → R b c → R a c) {xs : List β}
    (hturn : ∀ a, ∀ x ∈ xs, ∀ b, f a x = .ok b → R a b) (h : xs.foldlM f init = .ok result) :
    R init result := by
  induction xs generalizing init with
  | nil =>
    simp only [List.foldlM_nil, pure_eq_ok, Except.ok.injEq] at h
    exact h ▸ hrefl init
  | cons x xs ih =>
    obtain ⟨next, hnext, hrest⟩ := foldlM_cons_eq_ok.mp h
    exact htrans (hturn init x (by simp) next hnext)
      (ih (fun a y hy => hturn a y (List.mem_cons_of_mem _ hy)) hrest)

/-- What every turn keeps the loop keeps. -/
theorem foldlM_inv {I : α → Prop} {xs : List β}
    (hturn : ∀ a, I a → ∀ x ∈ xs, ∀ b, f a x = .ok b → I b) (hinit : I init)
    (h : xs.foldlM f init = .ok result) : I result :=
  foldlM_rel (R := fun a b => I a → I b) (fun _ h => h) (fun hab hbc h => hbc (hab h))
    (fun a x hx b hab ha => hturn a ha x hx b hab) h hinit

/-- A loop whose turns all succeed from an invariant completes, and keeps it. -/
theorem foldlM_isOk {I : α → Prop} {xs : List β}
    (hturn : ∀ a, I a → ∀ x ∈ xs, ∃ b, f a x = .ok b ∧ I b) (hinit : I init) :
    ∃ result, xs.foldlM f init = .ok result ∧ I result := by
  induction xs generalizing init with
  | nil => exact ⟨init, rfl, hinit⟩
  | cons x xs ih =>
    obtain ⟨next, hnext, hI⟩ := hturn init hinit x (by simp)
    obtain ⟨r, hr, hIr⟩ := ih (fun a ha y hy => hturn a ha y (List.mem_cons_of_mem _ hy)) hI
    exact ⟨r, foldlM_cons_eq_ok.mpr ⟨next, hnext, hr⟩, hIr⟩

/-- A loop that completed made every turn. -/
theorem foldlM_turn {xs : List β} (h : xs.foldlM f init = .ok result) :
    ∀ x ∈ xs, ∃ a b, f a x = .ok b := by
  induction xs generalizing init with
  | nil => simp
  | cons x xs ih =>
    obtain ⟨next, hnext, hrest⟩ := foldlM_cons_eq_ok.mp h
    rw [List.forall_mem_cons]
    exact ⟨⟨init, next, hnext⟩, ih hrest⟩

/-- What a turn of a completed loop did is kept by the turns after it. -/
theorem foldlM_turn_rel {R : α → α → Prop} (hrefl : ∀ a, R a a)
    (htrans : ∀ {a b c}, R a b → R b c → R a c) {xs : List β}
    (hturn : ∀ a, ∀ x ∈ xs, ∀ b, f a x = .ok b → R a b) (h : xs.foldlM f init = .ok result) :
    ∀ x ∈ xs, ∃ a b, R init a ∧ f a x = .ok b ∧ R b result := by
  induction xs generalizing init with
  | nil => simp
  | cons x xs ih =>
    obtain ⟨next, hnext, hrest⟩ := foldlM_cons_eq_ok.mp h
    have hrest' := foldlM_rel hrefl htrans (fun a y hy => hturn a y (List.mem_cons_of_mem _ hy)) hrest
    rw [List.forall_mem_cons]
    refine ⟨⟨init, next, hrefl init, hnext, hrest'⟩, fun y hy => ?_⟩
    obtain ⟨a, b, hinit, hab, hresult⟩ :=
      ih (fun a y hy => hturn a y (List.mem_cons_of_mem _ hy)) hrest y hy
    exact ⟨a, b, htrans (hturn init x (by simp) next hnext) hinit, hab, hresult⟩

/-- How a loop can fail: as one of its turns does, from a state the turns before kept. -/
theorem foldlM_error {I : α → Prop} {E : ε → Prop} {xs : List β} {e : ε}
    (hok : ∀ a, I a → ∀ x ∈ xs, ∀ b, f a x = .ok b → I b)
    (herror : ∀ a, I a → ∀ x ∈ xs, ∀ e, f a x = .error e → E e) (hinit : I init)
    (h : xs.foldlM f init = .error e) : E e := by
  induction xs generalizing init with
  | nil => cases h
  | cons x xs ih =>
    rw [List.foldlM_cons] at h
    cases hx : f init x with
    | error e' =>
      simp only [hx, bind, Except.bind, Except.error.injEq] at h
      exact h ▸ herror init hinit x (by simp) e' hx
    | ok next =>
      rw [hx] at h
      exact ih (fun a ha y hy => hok a ha y (List.mem_cons_of_mem _ hy))
        (fun a ha y hy => herror a ha y (List.mem_cons_of_mem _ hy))
        (hok init hinit x (by simp) next hx) h

/-- A loop whose turns succeed or fail whatever came before completes when every turn succeeds. -/
theorem foldlM_isOk_iff {G : β → Prop} {xs : List β}
    (hturn : ∀ a, ∀ x ∈ xs, (∃ b, f a x = .ok b) ↔ G x) :
    (∃ result, xs.foldlM f init = .ok result) ↔ ∀ x ∈ xs, G x := by
  constructor
  · rintro ⟨result, h⟩ x hx
    obtain ⟨a, b, hab⟩ := foldlM_turn h x hx
    exact (hturn a x hx).mp ⟨b, hab⟩
  · intro hall
    obtain ⟨result, hresult, -⟩ := @foldlM_isOk _ _ _ f init (fun _ => True) xs
      (fun a _ x hx => ((hturn a x hx).mpr (hall x hx)).imp fun _ h => ⟨h, trivial⟩) trivial
    exact ⟨result, hresult⟩

/-- A loop fails in its first turn that does. -/
theorem foldlM_error_iff {E : ε → Prop} {xs : List β} :
    (∃ e, xs.foldlM f init = .error e ∧ E e) ↔ ∃ before x after mid, xs = before ++ x :: after ∧
      before.foldlM f init = .ok mid ∧ ∃ e, f mid x = .error e ∧ E e := by
  constructor
  · rintro ⟨e, h, hE⟩
    induction xs generalizing init with
    | nil => cases h
    | cons x xs ih =>
      rw [List.foldlM_cons] at h
      cases hx : f init x with
      | error e' =>
        simp only [hx, bind, Except.bind, Except.error.injEq] at h
        exact ⟨[], x, xs, init, rfl, rfl, e', hx, h ▸ hE⟩
      | ok next =>
        rw [hx] at h
        obtain ⟨before, y, after, mid, rfl, hbefore, hy⟩ := ih h
        exact ⟨x :: before, y, after, mid, rfl, foldlM_cons_eq_ok.mpr ⟨next, hx, hbefore⟩, hy⟩
  · rintro ⟨before, x, after, mid, rfl, hbefore, e, hx, hE⟩
    refine ⟨e, ?_, hE⟩
    rw [List.foldlM_append, hbefore]
    simp only [bind, Except.bind, List.foldlM_cons, hx]

/-- A loop that collects results made every one of them. -/
theorem mapM_forall₂ {g : α → Except ε β} {xs : List α} {ys : List β}
    (h : xs.mapM g = .ok ys) : List.Forall₂ (fun x y => g x = .ok y) xs ys := by
  induction xs generalizing ys with
  | nil =>
    simp only [List.mapM_nil, pure_eq_ok, Except.ok.injEq] at h
    exact h ▸ .nil
  | cons x xs ih =>
    rw [List.mapM_cons] at h
    obtain ⟨y, hy, h⟩ := bind_eq_ok.mp h
    obtain ⟨rest, hrest, h⟩ := bind_eq_ok.mp h
    simp only [pure_eq_ok, Except.ok.injEq] at h
    exact h ▸ .cons hy (ih hrest)

/-- A collected result was made from some element. -/
theorem mem_of_mapM {g : α → Except ε β} {xs : List α} {ys : List β} (h : xs.mapM g = .ok ys)
    {y : β} (hy : y ∈ ys) : ∃ x ∈ xs, g x = .ok y := by
  obtain ⟨i, hi, rfl⟩ := List.getElem_of_mem hy
  have hall := mapM_forall₂ h
  have hlt : i < xs.length := hall.length_eq ▸ hi
  exact ⟨xs[i], List.getElem_mem hlt, (List.forall₂_iff_get.mp hall).2 i hlt hi⟩

/-- Every element yields one of the collected results. -/
theorem mapM_mem {g : α → Except ε β} {xs : List α} {ys : List β} (h : xs.mapM g = .ok ys)
    {x : α} (hx : x ∈ xs) : ∃ y ∈ ys, g x = .ok y := by
  obtain ⟨i, hi, rfl⟩ := List.getElem_of_mem hx
  have hall := mapM_forall₂ h
  have hlt : i < ys.length := hall.length_eq ▸ hi
  exact ⟨ys[i], List.getElem_mem hlt, (List.forall₂_iff_get.mp hall).2 i hi hlt⟩

/-- A sequence of fallible steps fails as its first step or as its second. -/
theorem bind_eq_error {x : Except ε α} {g : α → Except ε β} {e : ε} :
    x >>= g = .error e ↔ x = .error e ∨ ∃ a, x = .ok a ∧ g a = .error e := by
  cases x with
  | error e' => simp [bind, Except.bind]
  | ok a => simp [bind, Except.bind]

/-- A loop that collects results fails as one of them does. -/
theorem mapM_error {g : α → Except ε β} {xs : List α} {e : ε} (h : xs.mapM g = .error e) :
    ∃ x ∈ xs, g x = .error e := by
  induction xs with
  | nil => cases h
  | cons x xs ih =>
    rw [List.mapM_cons] at h
    rcases bind_eq_error.mp h with hx | ⟨y, -, h⟩
    · exact ⟨x, by simp, hx⟩
    · rcases bind_eq_error.mp h with hrest | ⟨ys, -, h⟩
      · obtain ⟨z, hz, hfail⟩ := ih hrest
        exact ⟨z, List.mem_cons_of_mem _ hz, hfail⟩
      · cases h

/-- A loop that collects results completes if each can be made. -/
theorem mapM_isOk {g : α → Except ε β} {xs : List α} (h : ∀ x ∈ xs, ∃ y, g x = .ok y) :
    ∃ ys, xs.mapM g = .ok ys := by
  cases hmap : xs.mapM g with
  | ok ys => exact ⟨ys, rfl⟩
  | error e =>
    obtain ⟨x, hx, herror⟩ := mapM_error hmap
    obtain ⟨y, hy⟩ := h x hx
    rw [hy] at herror
    cases herror

theorem ok_bind {a : α} {f : α → Except ε β} : (.ok a >>= f) = f a := rfl

/-- Two checks one after the other pass if both do. -/
theorem seq_eq_ok {x : Except ε Unit} {y : Except ε β} {b : β} :
    (x >>= fun _ => y) = .ok b ↔ x = .ok () ∧ y = .ok b := by
  cases x <;> simp [bind, Except.bind]

/-- A loop of checks passes if all of them do. -/
theorem forM_eq_ok {xs : List α} {f : α → Except ε Unit} :
    xs.forM f = .ok () ↔ ∀ x ∈ xs, f x = .ok () := by
  induction xs with
  | nil => simp [List.forM, pure, Except.pure]
  | cons x xs ih =>
    rw [List.forall_mem_cons, ← ih]
    exact seq_eq_ok

/-- A loop whose turns fail by a condition and otherwise compute a function. -/
theorem foldlM_eq_ok_iff {G : β → Prop} {g : α → β → α} {xs : List β}
    (hturn : ∀ a x b, f a x = .ok b ↔ G x ∧ b = g a x) :
    xs.foldlM f init = .ok result ↔ (∀ x ∈ xs, G x) ∧ result = xs.foldl g init := by
  induction xs generalizing init with
  | nil =>
    rw [List.foldlM_nil, pure_eq_ok, Except.ok.injEq, List.foldl_nil, eq_comm]
    simp
  | cons x xs ih =>
    rw [foldlM_cons_eq_ok, List.forall_mem_cons, List.foldl_cons]
    constructor
    · rintro ⟨next, hnext, hrest⟩
      obtain ⟨hx, rfl⟩ := (hturn _ _ _).mp hnext
      obtain ⟨hxs, hresult⟩ := ih.mp hrest
      exact ⟨⟨hx, hxs⟩, hresult⟩
    · rintro ⟨⟨hx, hxs⟩, hresult⟩
      exact ⟨g init x, (hturn _ _ _).mpr ⟨hx, rfl⟩, ih.mpr ⟨hxs, hresult⟩⟩

/-- A loop that collects what a function computes, where a condition does not fail. -/
theorem mapM_eq_ok_iff {G : α → Prop} {g : α → Except ε β} {h : α → β} {xs : List α} {ys : List β}
    (hturn : ∀ x y, g x = .ok y ↔ G x ∧ y = h x) :
    xs.mapM g = .ok ys ↔ (∀ x ∈ xs, G x) ∧ ys = xs.map h := by
  induction xs generalizing ys with
  | nil =>
    rw [List.mapM_nil, pure_eq_ok, Except.ok.injEq, List.map_nil, eq_comm]
    simp
  | cons x xs ih =>
    rw [List.mapM_cons, bind_eq_ok, List.forall_mem_cons, List.map_cons]
    simp only [bind_eq_ok, hturn, ih, pure_eq_ok, Except.ok.injEq]
    constructor
    · rintro ⟨_, ⟨hx, rfl⟩, _, ⟨hxs, rfl⟩, rfl⟩
      exact ⟨⟨hx, hxs⟩, rfl⟩
    · rintro ⟨⟨hx, hxs⟩, rfl⟩
      exact ⟨_, ⟨hx, rfl⟩, _, ⟨hxs, rfl⟩, rfl⟩

/-! ### Both ends of a computation -/

/-- The errors of a computation satisfy `E`, its value satisfies `P`. -/
def Meets (E : ε → Prop) (P : α → Prop) : Except ε α → Prop
  | .ok a => P a
  | .error e => E e

namespace Meets

variable {E : ε → Prop} {P : α → Prop} {Q : β → Prop}

theorem mono {P' : α → Prop} {x : Except ε α} (h : x.Meets E P) (himp : ∀ a, P a → P' a) :
    x.Meets E P' := by
  cases x with
  | ok a => exact himp a h
  | error e => exact h

theorem bind {x : Except ε α} {f : α → Except ε β} (h : x.Meets E P)
    (hf : ∀ a, P a → (f a).Meets E Q) : (x >>= f).Meets E Q := by
  cases x with
  | ok a => exact hf a h
  | error e => exact h

/-- The rule of a sequence whose first step leaves no more than its value. -/
theorem bind_any {x : Except ε α} {f : α → Except ε β} (h : x.Meets E fun _ => True)
    (hf : ∀ a, x = .ok a → (f a).Meets E Q) : (x >>= f).Meets E Q := by
  cases x with
  | ok a => exact hf a rfl
  | error e => exact h

theorem foldlM {f : α → β → Except ε α} {init : α} {xs : List β} (hinit : P init)
    (hturn : ∀ a, P a → ∀ x ∈ xs, (f a x).Meets E P) : (xs.foldlM f init).Meets E P := by
  induction xs generalizing init with
  | nil => exact hinit
  | cons x xs ih =>
    rw [List.foldlM_cons]
    exact (hturn init hinit x (by simp)).bind fun next hnext =>
      ih hnext fun a ha y hy => hturn a ha y (List.mem_cons_of_mem _ hy)

theorem mapM {g : α → Except ε β} {xs : List α} (h : ∀ x ∈ xs, (g x).Meets E fun _ => True) :
    (xs.mapM g).Meets E fun _ => True := by
  cases hmap : xs.mapM g with
  | ok ys => trivial
  | error e =>
    obtain ⟨x, hx, herror⟩ := mapM_error hmap
    have hE := h x hx
    rw [herror] at hE
    exact hE

theorem of_forall {x : Except ε α} (hE : ∀ e, E e) (h : ∀ a, x = .ok a → P a) : x.Meets E P := by
  cases x with
  | ok a => exact h a rfl
  | error e => exact hE e

theorem of_ok {x : Except ε α} {a : α} (h : x.Meets E P) (hx : x = .ok a) : P a := by
  rw [hx] at h
  exact h

theorem of_error {x : Except ε α} {e : ε} (h : x.Meets E P) (hx : x = .error e) : E e := by
  rw [hx] at h
  exact h

end Meets

/-! ### Two computations -/

/-- Two computations fail alike, or both succeed with values that are related. -/
def Agrees {γ : Type} (R : α → γ → Prop) : Except ε α → Except ε γ → Prop
  | .ok a, .ok b => R a b
  | .error e, .error e' => e = e'
  | _, _ => False

namespace Agrees

variable {γ δ : Type} {R : α → γ → Prop} {S : β → δ → Prop} {x : Except ε α} {y : Except ε γ}

theorem rfl_of {x : Except ε α} {R : α → α → Prop} (h : ∀ a, x = .ok a → R a a) :
    x.Agrees R x := by
  cases x with
  | ok a => exact h a rfl
  | error e => exact rfl

theorem mono {R' : α → γ → Prop} (h : x.Agrees R y)
    (himp : ∀ a b, x = .ok a → y = .ok b → R a b → R' a b) : x.Agrees R' y := by
  cases x <;> cases y
  · exact h
  · exact h.elim
  · exact h.elim
  · exact himp _ _ rfl rfl h

theorem bind {f : α → Except ε β} {g : γ → Except ε δ} (h : x.Agrees R y)
    (hf : ∀ a b, x = .ok a → y = .ok b → R a b → (f a).Agrees S (g b)) :
    (x >>= f).Agrees S (y >>= g) := by
  cases x <;> cases y
  · exact h
  · exact h.elim
  · exact h.elim
  · exact hf _ _ rfl rfl h

theorem foldlM {f : α → β → Except ε α} {g : γ → β → Except ε γ} {xs : List β} {a : α} {b : γ}
    (hinit : R a b) (hturn : ∀ a b, R a b → ∀ x ∈ xs, (f a x).Agrees R (g b x)) :
    (xs.foldlM f a).Agrees R (xs.foldlM g b) := by
  induction xs generalizing a b with
  | nil => exact hinit
  | cons x xs ih =>
    rw [List.foldlM_cons, List.foldlM_cons]
    exact (hturn a b hinit x (by simp)).bind fun a' b' _ _ hnext =>
      ih hnext fun a b hab y hy => hturn a b hab y (List.mem_cons_of_mem _ hy)

end Agrees

end Except
