import DelayProbe.Proofs.Interleaving
/-!
# Patterns — the targets that a pattern stands for

A pattern is cut at its first colon, so the text of a name is a pattern for that name exactly if its path has no colon
(`Key.matches_text_iff`).  A path without a star at its end stands for one name (`Key.matches_exact_iff`), which a registry lists
once at most; what is before a star stands for every path that starts with it (`Key.matches_star_iff`), and the longer it is,
the fewer these are (`Registry.listMatching_longer`).
-/
namespace DelayProbe
namespace PathPattern

theorem ofText_of_no_star {path : Text} (h : path.getLast? ≠ some '*') : ofText path = .only path := if_neg h

theorem ofText_star (head : Text) : ofText (head ++ ['*']) = .startingWith head := by
  unfold ofText
  rw [if_pos List.getLast?_concat, List.dropLast_concat]

/-- Read as a pattern or not, a path is covered by itself. -/
theorem covers_ofText_self (path : Text) : (ofText path).covers path = true := by
  unfold ofText
  split
  · exact List.isPrefixOf_iff_prefix.2 (List.dropLast_prefix path)
  · exact decide_eq_true rfl

end PathPattern

namespace Key

variable {k : Key} {path symbol head : Text}

/-- A path pattern without a colon is all that stands before the first one. -/
theorem matches_append_iff (h : ':' ∉ path) :
    k.matches (path ++ ':' :: symbol) = true ↔ symbol = k.symbol ∧ (PathPattern.ofText path).covers k.path = true := by
  unfold Key.matches Pattern.ofText?
  rw [Text.cut_append symbol h]
  simp only [Option.map_some, Option.any_some, Pattern.covers, Bool.and_eq_true, decide_eq_true_eq]

/-- **The text of a name is a pattern for that name exactly if its path has no colon.** -/
theorem matches_text_iff : k.matches k.text = true ↔ ':' ∉ k.path := by
  constructor
  · intro hmatch hcolon
    cases hcut : Text.cut ':' k.path with
    | none => exact Text.cut_eq_none_iff.1 hcut hcolon
    | some p =>
      obtain ⟨before, behind⟩ := p
      obtain ⟨hpath, hfirst⟩ := Text.cut_eq_some_iff.1 hcut
      have htext : k.text = before ++ ':' :: (behind ++ ':' :: k.symbol) := by
        rw [text, hpath, List.append_assoc, List.cons_append]
      rw [htext, matches_append_iff hfirst] at hmatch
      -- what stands behind the first colon is longer than the symbol
      have hlength := congrArg List.length hmatch.1
      rw [List.length_append, List.length_cons] at hlength
      omega
  · exact fun hcolon => (matches_append_iff hcolon).2 ⟨rfl, PathPattern.covers_ofText_self k.path⟩

/-- **A path without a colon, and without a star at its end, stands for one name.** -/
theorem matches_exact_iff (hcolon : ':' ∉ path) (hstar : path.getLast? ≠ some '*') :
    k.matches (path ++ ':' :: symbol) = true ↔ k = ⟨path, symbol⟩ := by
  rw [matches_append_iff hcolon, PathPattern.ofText_of_no_star hstar, PathPattern.covers, decide_eq_true_eq]
  constructor
  · rintro ⟨rfl, rfl⟩
    rfl
  · rintro rfl
    exact ⟨rfl, rfl⟩

/-- **What is before a star stands for every path that starts with it.** -/
theorem matches_star_iff (hcolon : ':' ∉ head) :
    k.matches (head ++ '*' :: ':' :: symbol) = true ↔ k.symbol = symbol ∧ head <+: k.path := by
  have htext : head ++ '*' :: ':' :: symbol = (head ++ ['*']) ++ ':' :: symbol := by rw [List.append_assoc, List.singleton_append]
  have hcolon' : ':' ∉ head ++ ['*'] := by simpa using hcolon
  rw [htext, matches_append_iff hcolon', PathPattern.ofText_star, PathPattern.covers, List.isPrefixOf_iff_prefix, eq_comm]

end Key

namespace Registry

variable {r : Registry} {path symbol head : Text}

/-- If no two are found, all that are found are the first one. -/
theorem filter_eq_toList_find? {α : Type} {p : α → Bool} : ∀ {xs : List α}, xs.Pairwise (fun x y => p x = true → p y = false) →
    xs.filter p = (xs.find? p).toList
  | [], _ => rfl
  | x :: xs, h => by
    obtain ⟨hx, hxs⟩ := List.pairwise_cons.1 h
    cases hp : p x with
    | true =>
      have hnone : xs.filter p = [] := List.filter_eq_nil_iff.2 fun y hy => by rw [hx y hy hp]; exact Bool.false_ne_true
      rw [List.filter_cons_of_pos hp, List.find?_cons_of_pos hp, hnone]
      rfl
    | false =>
      have hneg : ¬ p x = true := by rw [hp]; exact Bool.false_ne_true
      rw [List.filter_cons_of_neg hneg, List.find?_cons_of_neg hneg, filter_eq_toList_find? hxs]

/-- **The pattern that stands for one name lists what is found under it.** -/
theorem listMatching_exact (hd : r.Distinct) (hcolon : ':' ∉ path) (hstar : path.getLast? ≠ some '*') (symbol : Text) :
    r.listMatching (path ++ ':' :: symbol) = (r.lookup ⟨path, symbol⟩).toList := by
  have hmatch : (fun s : Slot => s.target.key.matches (path ++ ':' :: symbol)) =
      fun s => decide (s.target.key = ⟨path, symbol⟩) :=
    funext fun s => Bool.eq_iff_iff.2 ((Key.matches_exact_iff hcolon hstar).trans decide_eq_true_iff.symm)
  have hone : r.slots.Pairwise fun a b =>
      decide (a.target.key = ⟨path, symbol⟩) = true → decide (b.target.key = ⟨path, symbol⟩) = false := by
    refine (List.pairwise_map.1 hd).imp fun hne ha => decide_eq_false fun hb => hne ?_
    rw [of_decide_eq_true ha, hb]
  rw [listMatching, hmatch, filter_eq_toList_find? hone, lookup, slot?, Option.toList_map]

/-- **The pattern with a star lists the targets of that symbol whose paths start as it says, in their order.** -/
theorem listMatching_star (r : Registry) (hcolon : ':' ∉ head) (symbol : Text) :
    r.listMatching (head ++ '*' :: ':' :: symbol) =
      r.list.filter fun i => decide (i.key.symbol = symbol ∧ head <+: i.key.path) := by
  have hmatch : (fun s : Slot => s.target.key.matches (head ++ '*' :: ':' :: symbol)) =
      (fun i : TargetInfo => decide (i.key.symbol = symbol ∧ head <+: i.key.path)) ∘ fun s => s.target.info :=
    funext fun s => Bool.eq_iff_iff.2 ((Key.matches_star_iff hcolon).trans decide_eq_true_iff.symm)
  rw [listMatching, hmatch, list, List.filter_map]

/-- **The longer what is before the star, the fewer targets are listed.** -/
theorem listMatching_longer (r : Registry) {longer : Text} (hcolon : ':' ∉ longer) (h : head <+: longer) (symbol : Text) :
    (r.listMatching (longer ++ '*' :: ':' :: symbol)).Sublist (r.listMatching (head ++ '*' :: ':' :: symbol)) := by
  rw [listMatching_star r hcolon, listMatching_star r (fun hm => hcolon (h.subset hm))]
  have hboth : ∀ i ∈ r.list, decide (i.key.symbol = symbol ∧ longer <+: i.key.path) =
      (decide (i.key.symbol = symbol ∧ longer <+: i.key.path) && decide (i.key.symbol = symbol ∧ head <+: i.key.path)) := by
    intro i _
    rw [Bool.eq_iff_iff, Bool.and_eq_true, decide_eq_true_iff, decide_eq_true_iff]
    exact ⟨fun hi => ⟨hi, hi.1, h.trans hi.2⟩, And.left⟩
  rw [List.filter_congr hboth, ← List.filter_filter]
  exact List.filter_sublist

end Registry

namespace Session

variable {l : Limits} {s : Session}

/-- **Patterns and names agree.**  The text of a name is a pattern for it exactly if its path has no colon.  In every state the
pattern of a path without a colon, and without a star at its end, lists what is found under that name and nothing else; a
pattern with a star lists, in the order of the list, the targets of its symbol whose paths start as it says, and fewer of them
the more it says. -/
theorem Reached.listMatching_agrees (hs : Reached l s) :
    (∀ k : Key, k.matches k.text = true ↔ ':' ∉ k.path) ∧
      (∀ path symbol : Text, ':' ∉ path → path.getLast? ≠ some '*' →
        s.registry.listMatching (path ++ ':' :: symbol) = (s.registry.lookup ⟨path, symbol⟩).toList) ∧
      ∀ head symbol : Text, ':' ∉ head →
        s.registry.listMatching (head ++ '*' :: ':' :: symbol) =
            s.registry.list.filter (fun i => decide (i.key.symbol = symbol ∧ head <+: i.key.path)) ∧
          ∀ longer : Text, ':' ∉ longer → head <+: longer →
            (s.registry.listMatching (longer ++ '*' :: ':' :: symbol)).Sublist
              (s.registry.listMatching (head ++ '*' :: ':' :: symbol)) :=
  ⟨fun _ => Key.matches_text_iff,
    fun _ symbol hcolon hstar => Registry.listMatching_exact hs.orderly.distinct hcolon hstar symbol,
    fun _ symbol hcolon => ⟨Registry.listMatching_star _ hcolon symbol,
      fun _ hlonger h => Registry.listMatching_longer _ hlonger h symbol⟩⟩

/-- Two files with a symbol of the same name. -/
def twoFiles : List Op :=
  [.insertFile "/a".toList (Blueprint.small.image .little), .insertFile "/ab".toList (Blueprint.small.image .little),
    .write Endpoint.targets.name "+/ab:f".toList, .write Endpoint.targets.name "+/a:f".toList]

theorem Reached.listMatching_agrees_twoFiles :
    ∃ s, Reached {} s ∧ (s.registry.listMatching "/a:f".toList).map (·.key.path) = ["/a".toList] ∧
      s.registry.listMatching "/a*:f".toList = s.registry.list ∧
      (s.registry.listMatching "/ab*:f".toList).Sublist s.registry.list := by
  have hrun : ((Registry.fresh {}).run twoFiles).map (fun p => ((p.2.lookup ⟨"/a".toList, ['f']⟩).toList.map (·.key.path),
      p.2.list.all fun i => decide (i.key.symbol = ['f'] ∧ "/a".toList <+: i.key.path))) =
        some (["/a".toList], true) := by decide +kernel
  obtain ⟨⟨answers, r⟩, hr, hp⟩ := Option.map_eq_some_iff.1 hrun
  obtain ⟨hfound, hall⟩ := Prod.mk.inj hp
  obtain ⟨s, hs, -, rfl⟩ := Reached.of_run (m := {}) .standard hr
  obtain ⟨-, hexact, hstar⟩ := hs.listMatching_agrees
  obtain ⟨hlisted, hlonger⟩ := hstar "/a".toList ['f'] (by decide)
  rw [List.filter_eq_self.2 (List.all_eq_true.1 hall)] at hlisted
  refine ⟨s, hs, ?_, hlisted, ?_⟩
  · rw [← hfound]
    exact congrArg _ (hexact "/a".toList ['f'] (by decide) (by decide))
  · rw [← hlisted]
    exact hlonger "/ab".toList (by decide) (by decide)

end Session
end DelayProbe
