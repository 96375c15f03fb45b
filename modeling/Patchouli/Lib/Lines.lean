import Mathlib.Data.List.Basic

/-!
# Lines in a stream

Messages are written one after the other, each followed by a separator it does not contain. The
stream is delivered in pieces, and a reader takes a message off whenever a separator has come. What
is taken off first was written first, however the stream was cut: `firstLine_of_joined`.

## Main definitions

* `joined` — messages, each with its separator
* `firstLine` — what stands before the first separator, and what stands behind it
-/

namespace Lines

variable {α : Type*} {separator : α}

variable (separator) in
/-- Messages, each with its separator. -/
def joined (messages : List (List α)) : List α := messages.flatMap (· ++ [separator])

@[simp] theorem joined_nil : joined separator [] = [] := rfl

@[simp] theorem joined_cons (message : List α) (messages : List (List α)) :
    joined separator (message :: messages) =
      message ++ separator :: joined separator messages := by
  simp [joined]

@[simp] theorem joined_append (messages others : List (List α)) :
    joined separator (messages ++ others) = joined separator messages ++ joined separator others :=
  List.flatMap_append

variable [DecidableEq α]

variable (separator) in
/-- What stands before the first separator, and what stands behind it. -/
def firstLine : List α → Option (List α × List α)
  | [] => none
  | c :: rest =>
    if c = separator then some ([], rest)
    else (firstLine rest).map fun parts => (c :: parts.1, parts.2)

theorem firstLine_eq_some {buffer line after : List α} :
    firstLine separator buffer = some (line, after) ↔
      buffer = line ++ separator :: after ∧ separator ∉ line := by
  induction buffer generalizing line with
  | nil => simp [firstLine]
  | cons c rest ih =>
    unfold firstLine
    by_cases hc : c = separator
    · subst hc
      rw [if_pos rfl, Option.some.injEq, Prod.mk.injEq]
      constructor
      · rintro ⟨rfl, rfl⟩
        exact ⟨rfl, List.not_mem_nil⟩
      · rintro ⟨heq, hnot⟩
        cases line with
        | nil => exact ⟨rfl, (List.cons.inj heq).2⟩
        | cons d line =>
          exact absurd ((List.cons.inj heq).1 ▸ List.mem_cons_self) hnot
    · rw [if_neg hc, Option.map_eq_some_iff]
      constructor
      · rintro ⟨⟨tail, behind⟩, htail, heq⟩
        obtain ⟨rfl, rfl⟩ := Prod.mk.inj heq
        obtain ⟨rfl, hnot⟩ := ih.mp htail
        exact ⟨rfl, by simp [hnot, Ne.symm hc]⟩
      · rintro ⟨heq, hnot⟩
        cases line with
        | nil => exact absurd (List.cons.inj heq).1 hc
        | cons d line =>
          obtain ⟨rfl, rfl⟩ := List.cons.inj heq
          exact ⟨(line, after), ih.mpr ⟨rfl, fun h => hnot (List.mem_cons_of_mem _ h)⟩, rfl⟩

theorem firstLine_eq_none {buffer : List α} :
    firstLine separator buffer = none ↔ separator ∉ buffer := by
  induction buffer with
  | nil => simp [firstLine]
  | cons c rest ih =>
    unfold firstLine
    by_cases hc : c = separator
    · simp [hc]
    · simp [hc, ih, Ne.symm hc]

/-- A first line is the only one. -/
theorem line_unique {line line' after after' : List α}
    (h : line ++ separator :: after = line' ++ separator :: after') (hline : separator ∉ line)
    (hline' : separator ∉ line') : line = line' ∧ after = after' := by
  have hfirst := firstLine_eq_some.mpr ⟨h, hline'⟩
  rw [firstLine_eq_some.mpr ⟨rfl, hline⟩, Option.some.injEq, Prod.mk.injEq] at hfirst
  exact hfirst

/-- **Messages are taken off in the order they were written**, whatever of them has come. -/
theorem firstLine_of_joined {messages : List (List α)} {buffer rest line after : List α}
    (hmessages : ∀ message ∈ messages, separator ∉ message)
    (h : buffer ++ rest = joined separator messages)
    (hfirst : firstLine separator buffer = some (line, after)) :
    ∃ others, messages = line :: others ∧ after ++ rest = joined separator others := by
  obtain ⟨rfl, hline⟩ := firstLine_eq_some.mp hfirst
  cases messages with
  | nil => simp at h
  | cons message others =>
    rw [joined_cons, List.append_assoc, List.cons_append] at h
    obtain ⟨rfl, hafter⟩ := line_unique h hline (hmessages message List.mem_cons_self)
    exact ⟨others, rfl, hafter⟩

end Lines
