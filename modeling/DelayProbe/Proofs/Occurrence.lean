import DelayProbe.Text
import Mathlib.Data.List.DropRight
/-!
# Occurrence — the first of a word, the last run of a kind

`Text.cutAt` finds the first occurrence of a word (`Text.cutAt_eq_some_iff`), wherever it stands; `Text.trimEnd` takes the
longest run off an end (`Text.trimEnd_eq_iff`).
-/
namespace DelayProbe
namespace Text

/-- `s` is `t` without its longest run of `p` at the end. -/
def Trims (p : Char → Bool) (t s : Text) : Prop :=
  ∃ e, t = s ++ e ∧ (∀ c ∈ e, p c = true) ∧ ∀ c ∈ s.getLast?, p c = false

/-- The first occurrence of `word` in `t` stands between `a` and `b`. -/
def FirstAt (word t a b : Text) : Prop := t = a ++ word ++ b ∧ ∀ x y, t = x ++ word ++ y → a.length ≤ x.length

variable {p : Char → Bool} {word t s a b : Text}

theorem trimEnd_append_of_all {e : Text} (he : ∀ c ∈ e, p c = true) : trimEnd p (s ++ e) = trimEnd p s := by
  unfold trimEnd
  rw [List.reverse_append, List.dropWhile_append_of_pos]
  exact fun c hc => he c (List.mem_reverse.1 hc)

theorem trimEnd_of_getLast? (hs : ∀ c ∈ s.getLast?, p c = false) : trimEnd p s = s :=
  List.rdropWhile_eq_self_iff.2 fun hl => by
    rw [hs _ (List.getLast?_eq_some_getLast hl)]
    exact Bool.false_ne_true

/-- **What is left after trimming is the text without its longest run.** -/
theorem trimEnd_eq_iff : trimEnd p t = s ↔ Trims p t s := by
  constructor
  · rintro rfl
    refine ⟨t.rtakeWhile p, (List.rdropWhile_append_rtakeWhile (p := p)).symm, fun c hc => List.mem_rtakeWhile_imp hc, ?_⟩
    intro c hc
    obtain ⟨hl, rfl⟩ := List.mem_getLast?_eq_getLast hc
    exact Bool.eq_false_iff.2 (List.rdropWhile_last_not p t hl)
  · rintro ⟨e, rfl, he, hs⟩
    rw [trimEnd_append_of_all he, trimEnd_of_getLast? hs]

theorem Trims.of_not_mem {e : Text} (he : ∀ c ∈ e, p c = true) (hs : ∀ c ∈ s, p c = false) : Trims p (s ++ e) s :=
  ⟨e, rfl, he, fun c hc => hs c (List.mem_of_getLast? hc)⟩

theorem trims_self (hs : ∀ c ∈ s.getLast?, p c = false) : Trims p s s := ⟨[], (List.append_nil s).symm, by simp, hs⟩

theorem cutAt_cons_here {c : Char} {r : Text} (h : word <+: c :: r) :
    cutAt word (c :: r) = some ([], (c :: r).drop word.length) := by
  unfold cutAt
  rw [if_pos (List.isPrefixOf_iff_prefix.2 h)]

theorem cutAt_cons_later {c : Char} {r : Text} (h : ¬ word <+: c :: r) :
    cutAt word (c :: r) = (cutAt word r).map fun q => (c :: q.1, q.2) := by
  conv => lhs; unfold cutAt
  rw [if_neg fun hp => h (List.isPrefixOf_iff_prefix.1 hp)]

theorem firstAt_cons_iff {c : Char} {r : Text} (h : ¬ word <+: c :: r) :
    FirstAt word (c :: r) a b ↔ ∃ a', a = c :: a' ∧ FirstAt word r a' b := by
  constructor
  · rintro ⟨ht, hf⟩
    cases a with
    | nil => exact absurd ⟨b, ht.symm⟩ h
    | cons x a' =>
      obtain ⟨rfl, hr⟩ := List.cons.inj ht
      refine ⟨a', rfl, hr, fun u v huv => ?_⟩
      have := hf (c :: u) v (by rw [huv]; rfl)
      simpa using this
  · rintro ⟨a', rfl, hr, hf⟩
    refine ⟨by rw [hr]; rfl, fun u v huv => ?_⟩
    cases u with
    | nil => exact absurd ⟨v, huv.symm⟩ h
    | cons x u' =>
      have := hf u' v (List.cons.inj huv).2
      simpa using this

/-- **Cutting a text at a word finds the first occurrence of the word**, and fails only if there is none. -/
theorem cutAt_eq_some_iff (hw : word ≠ []) : ∀ {t a b : Text}, cutAt word t = some (a, b) ↔ FirstAt word t a b
  | [], a, b => by
    unfold cutAt
    rw [if_neg hw]
    constructor
    · intro h; cases h
    · rintro ⟨ht, -⟩
      exact absurd (List.append_eq_nil_iff.1 (List.append_eq_nil_iff.1 ht.symm).1).2 hw
  | c :: r, a, b => by
    by_cases h : word <+: c :: r
    · rw [cutAt_cons_here h]
      obtain ⟨d, hd⟩ := h
      rw [← hd, List.drop_left]
      constructor
      · intro he
        cases he
        exact ⟨rfl, fun _ _ _ => Nat.zero_le _⟩
      · rintro ⟨ht, hf⟩
        have ha : a = [] := List.length_eq_zero_iff.1 (Nat.le_zero.1 (hf [] d rfl))
        subst ha
        rw [List.append_cancel_left ht]
    · rw [cutAt_cons_later h, firstAt_cons_iff h, Option.map_eq_some_iff]
      constructor
      · rintro ⟨⟨a', b'⟩, ha, he⟩
        cases he
        exact ⟨a', rfl, (cutAt_eq_some_iff hw).1 ha⟩
      · rintro ⟨a', rfl, hf⟩
        exact ⟨(a', b), (cutAt_eq_some_iff hw).2 hf, rfl⟩

theorem cutAt_eq_none_iff (hw : word ≠ []) : ∀ {t : Text}, cutAt word t = none ↔ ¬ word <:+: t
  | [] => by
    unfold cutAt
    rw [if_neg hw]
    simp [hw]
  | c :: r => by
    rw [List.infix_cons_iff, not_or]
    by_cases h : word <+: c :: r
    · rw [cutAt_cons_here h]
      simp [h]
    · rw [cutAt_cons_later h, Option.map_eq_none_iff, cutAt_eq_none_iff hw]
      simp [h]

end Text
end DelayProbe
