import HalfPrecision.Text
import Mathlib.Data.List.Basic
import Mathlib.Data.List.TakeDrop
import Mathlib.Data.List.TakeWhile

/-!
# Splitting at a class of characters

The characters of a class at the start of a text are all that is split off if the text goes on with
another character. A text that neither starts nor ends with a blank is what remains when blanks are
put around it and stripped again.
-/

namespace HalfPrecision.Text

variable {p : Char → Bool} {s before after : List Char}

theorem span_append (hbefore : ∀ c ∈ before, p c) (hs : ∀ c ∈ s.head?, p c = false) :
    (before ++ s).span p = (before, s) := by
  rw [List.span_eq_takeWhile_dropWhile, List.takeWhile_append_of_pos hbefore,
    List.dropWhile_append_of_pos hbefore]
  cases s with
  | nil => rw [List.takeWhile_nil, List.append_nil, List.dropWhile_nil]
  | cons c rest =>
    have hc : ¬ p c = true := Bool.not_eq_true _ ▸ hs c rfl
    rw [List.takeWhile_cons_of_neg hc, List.append_nil, List.dropWhile_cons_of_neg hc]

theorem takeWhile_append (hs : ∀ c ∈ s.head?, p c = false) :
    (before ++ s).takeWhile p = before.takeWhile p := by
  induction before with
  | nil =>
    cases s with
    | nil => rfl
    | cons c s =>
      have hc : ¬ p c = true := Bool.not_eq_true _ ▸ hs c rfl
      rw [List.nil_append, List.takeWhile_cons_of_neg hc, List.takeWhile_nil]
  | cons c before ih =>
    rw [List.cons_append, List.takeWhile_cons, List.takeWhile_cons, ih]

theorem dropWhile_append (hbefore : ∀ c ∈ before, p c) (hs : ∀ c ∈ s.head?, p c = false) :
    (before ++ s).dropWhile p = s := by
  have hspan := span_append hbefore hs
  rw [List.span_eq_takeWhile_dropWhile] at hspan
  exact congrArg Prod.snd hspan

theorem dropWhile_eq_self (hs : ∀ c ∈ s.head?, p c = false) : s.dropWhile p = s := by
  have hnil : ∀ c ∈ ([] : List Char), p c := List.forall_mem_nil _
  exact dropWhile_append hnil hs

theorem trim_append (hbefore : ∀ c ∈ before, p c) (hafter : ∀ c ∈ after, p c)
    (hhead : ∀ c ∈ s.head?, p c = false) (hlast : ∀ c ∈ s.getLast?, p c = false) (hne : s ≠ []) :
    trim p (before ++ s ++ after) = s := by
  have hstart : ∀ c ∈ (s ++ after).head?, p c = false := by
    rwa [List.head?_append_of_ne_nil _ hne]
  have hend : ∀ c ∈ s.reverse.head?, p c = false := by rwa [List.head?_reverse]
  have hreverse : ∀ c ∈ after.reverse, p c := fun c hc => hafter c (List.mem_reverse.1 hc)
  rw [trim, List.append_assoc, dropWhile_append hbefore hstart, List.reverse_append,
    dropWhile_append hreverse hend, List.reverse_reverse]

/-- Only characters of the class are trimmed. -/
theorem exists_eq_trim (p : Char → Bool) (s : List Char) :
    ∃ before after, s = before ++ trim p s ++ after ∧ (∀ c ∈ before, p c) ∧ ∀ c ∈ after, p c := by
  refine ⟨s.takeWhile p, ((s.dropWhile p).reverse.takeWhile p).reverse, ?_, ?_, ?_⟩
  · rw [trim, List.append_assoc, ← List.reverse_append, List.takeWhile_append_dropWhile,
      List.reverse_reverse, List.takeWhile_append_dropWhile]
  · exact fun c hc => List.mem_takeWhile_imp hc
  · exact fun c hc => List.mem_takeWhile_imp (List.mem_reverse.1 hc)

theorem trim_eq_self (h : ∀ c ∈ s, p c = false) : trim p s = s := by
  have hhead : ∀ c ∈ s.head?, p c = false := fun c hc => h c (List.mem_of_mem_head? hc)
  have hlast : ∀ c ∈ s.reverse.head?, p c = false :=
    fun c hc => h c (List.mem_reverse.1 (List.mem_of_mem_head? hc))
  rw [trim, dropWhile_eq_self hhead, dropWhile_eq_self hlast, List.reverse_reverse]

end HalfPrecision.Text
