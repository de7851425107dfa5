import DelayProbe.Proofs.Origin
/-!
# Lines — how many lines the list of targets has

The list of targets is written one after the other, each with a line feed behind it.  That makes one line of a target exactly
if its name holds no line feed (`Registry.targetsList_lines`), since the rest of its text never does.  A listed name stood in
a line that was written, in front of the line end (`Registry.New.run_stood`), so line feeds get in only where a written line
has one before its end.
-/
namespace DelayProbe

namespace Text

/-- A text is these lines, each with a line feed behind it and none inside. -/
structure Lines (t : Text) (ls : List Text) : Prop where
  joined : t = ls.flatMap fun line => line ++ ['\n']
  unbroken : ∀ line ∈ ls, '\n' ∉ line

namespace Lines

variable {a b : Text} {as bs : List Text}

instance (t : Text) (ls : List Text) : Decidable (t.Lines ls) :=
  decidable_of_iff (t = (ls.flatMap fun line => line ++ ['\n']) ∧ ∀ line ∈ ls, '\n' ∉ line)
    ⟨fun h => ⟨h.1, h.2⟩, fun h => ⟨h.joined, h.unbroken⟩⟩

theorem append (ha : a.Lines as) (hb : b.Lines bs) : (a ++ b).Lines (as ++ bs) :=
  ⟨by rw [List.flatMap_append, ← ha.joined, ← hb.joined],
    fun line h => (List.mem_append.1 h).elim (ha.unbroken line) (hb.unbroken line)⟩

/-- A text has as many lines as line feeds. -/
theorem count_eq : ∀ {ls : List Text} {t : Text}, t.Lines ls → t.count '\n' = ls.length
  | [], t, h => by
    rw [h.joined]
    rfl
  | line :: ls, t, h => by
    have hline : line.count '\n' = 0 := List.count_eq_zero.2 (h.unbroken line List.mem_cons_self)
    have htail : Lines (ls.flatMap fun x => x ++ ['\n']) ls := ⟨rfl, fun x hx => h.unbroken x (List.mem_cons_of_mem _ hx)⟩
    rw [h.joined, List.flatMap_cons, List.count_append, List.count_append, hline, count_eq htail, List.length_cons]
    simp [Nat.add_comm]

theorem exists_append_lineFeed : ∀ t : Text, ∃ ls, (t ++ ['\n']).Lines ls
  | [] => ⟨[[]], rfl, by simp⟩
  | c :: t => by
    obtain ⟨ls, h⟩ := exists_append_lineFeed t
    by_cases hc : c = '\n'
    · exact ⟨[] :: ls, by rw [hc, List.cons_append, h.joined]; rfl, List.forall_mem_cons.2 ⟨by simp, h.unbroken⟩⟩
    · cases ls with
      | nil => exact absurd h.joined (by simp)
      | cons line ls =>
        refine ⟨(c :: line) :: ls, by rw [List.cons_append, h.joined]; rfl, List.forall_mem_cons.2 ⟨?_, ?_⟩⟩
        · rw [List.mem_cons, not_or]
          exact ⟨Ne.symm hc, h.unbroken line List.mem_cons_self⟩
        · exact fun x hx => h.unbroken x (List.mem_cons_of_mem _ hx)

/-- **Texts with a line feed behind each make lines**, whatever is in them. -/
theorem exists_flatMap : ∀ ts : List Text, ∃ ls, Lines (ts.flatMap fun t => t ++ ['\n']) ls
  | [] => ⟨[], rfl, fun _ h => (by cases h)⟩
  | t :: ts => by
    obtain ⟨as, ha⟩ := exists_append_lineFeed t
    obtain ⟨bs, hb⟩ := exists_flatMap ts
    exact ⟨as ++ bs, ha.append hb⟩

end Lines

/-- What stands in front of something that is no line end stands in front of the line end. -/
theorem prefix_stripLineEnd (a : Text) {c : Char} (hc : isLineEnd c = false) (b : Text) :
    a <+: (a ++ c :: b).stripLineEnd := by
  obtain ⟨e, he, hends, -⟩ := trims_stripLineEnd (a ++ c :: b)
  rcases List.append_eq_append_iff.1 he with ⟨x, hx, -⟩ | ⟨x, -, hx⟩
  · exact ⟨x, hx.symm⟩
  · have hcend := hends c (hx ▸ List.mem_append_right _ List.mem_cons_self)
    rw [hc] at hcend
    cases hcend

end Text

/-! ## The text of a target -/

namespace TargetInfo

theorem lineFeed_not_mem_decimal (n : Nat) : '\n' ∉ Decimal.text n := fun h =>
  absurd ((Decimal.isDigits_text n).2 _ h) (by decide)

/-- **The line feeds in the text of a target are those in its name.** -/
theorem count_lineFeed_text (i : TargetInfo) : i.text.count '\n' = i.key.text.count '\n' := by
  have hdecimal : ∀ n, (Decimal.text n).count '\n' = 0 := fun n => List.count_eq_zero.2 (lineFeed_not_mem_decimal n)
  have hpid : " pid=".toList.count '\n' = 0 := by decide
  have hdelay : " delay_ns=".toList.count '\n' = 0 := by decide
  have hhits : " hits=".toList.count '\n' = 0 := by decide
  have hfilter : (filterText i.filter).count '\n' = 0 := by
    cases i.filter with
    | none => rfl
    | some p =>
      show (" pid=".toList ++ Decimal.text p.toNat).count '\n' = 0
      rw [List.count_append, hdecimal, Nat.add_zero]
      exact hpid
  simp only [text, List.count_append, hdecimal, hfilter, hdelay, hhits, Nat.add_zero]

theorem lineFeed_not_mem_text_iff {i : TargetInfo} : '\n' ∉ i.text ↔ '\n' ∉ i.key.text := by
  rw [← List.count_eq_zero, count_lineFeed_text, List.count_eq_zero]

end TargetInfo

/-- **A name that is said stands in the text, in front of the line end.** -/
theorem Spec.Says.prefix_stripLineEnd {l : Limits} {t : Text} {s : Spec} (h : s.Says l t) : s.key.text <+: t.stripLineEnd := by
  obtain ⟨rest, rfl, -, -, -, hfits, -, htail⟩ := h
  obtain ⟨⟨path, symbol⟩, delay, pid⟩ := s
  simp only at hfits htail ⊢
  cases htail with
  | bare _ hends =>
    -- nothing is behind the symbol but the line end
    obtain ⟨e, rfl, he, hlast⟩ := hends
    have hstrip : Text.stripLineEnd (path ++ ':' :: (symbol ++ e)) = Key.text ⟨path, symbol⟩ := by
      refine Text.trimEnd_eq_iff.2 ⟨e, by simp [Key.text], he, fun c hc => hlast c ?_⟩
      rwa [Key.text, List.getLast?_append_cons, List.getLast?_cons_of_ne_nil hfits.1] at hc
    exact hstrip ▸ List.prefix_refl _
  | @fields _ fields _ _ _ _ =>
    have hline : path ++ ':' :: (symbol ++ ' ' :: fields) = Key.text ⟨path, symbol⟩ ++ ' ' :: fields := by simp [Key.text]
    exact hline ▸ Text.prefix_stripLineEnd _ (by decide) fields

namespace Registry

/-- **The text of a list is one line of each target exactly if no name holds a line feed.** -/
theorem listText_lines_iff {l : List TargetInfo} :
    (listText l).Lines (l.map TargetInfo.text) ↔ ∀ i ∈ l, '\n' ∉ i.key.text := by
  constructor
  · exact fun h i hi => TargetInfo.lineFeed_not_mem_text_iff.1 (h.unbroken _ (List.mem_map_of_mem hi))
  · refine fun h => ⟨by rw [listText, List.flatMap_map], fun line hline => ?_⟩
    obtain ⟨i, hi, rfl⟩ := List.mem_map.1 hline
    exact TargetInfo.lineFeed_not_mem_text_iff.2 (h i hi)

theorem count_lineFeed_listText : ∀ l : List TargetInfo,
    (listText l).count '\n' = l.length + (l.flatMap fun i => i.key.text).count '\n'
  | [] => rfl
  | i :: l => by
    have ih := count_lineFeed_listText l
    unfold listText at ih ⊢
    rw [List.flatMap_cons, List.flatMap_cons, List.count_append, List.count_append, List.count_append, ih,
      TargetInfo.count_lineFeed_text, List.count_singleton_self, List.length_cons]
    omega

theorem exists_lines_listText (l : List TargetInfo) :
    ∃ ls, (listText l).Lines ls ∧ ls.length = l.length + (l.flatMap fun i => i.key.text).count '\n' := by
  obtain ⟨ls, h⟩ := Text.Lines.exists_flatMap (l.map TargetInfo.text)
  have hl : (listText l).Lines ls := by rwa [List.flatMap_map] at h
  exact ⟨ls, hl, by rw [← hl.count_eq, count_lineFeed_listText]⟩

variable {l : Limits} {r₀ r : Registry} {m : Machine} {ops : List Op} {answers : List Answer}

/-- **Every listed name stood in a line that was written to add it, in front of the line end.** -/
theorem New.run_stood (hnew : New l r₀) (hlines : ∀ op ∈ ops, op.addsDirectly = false)
    (hrun : { r₀ with machine := m }.run ops = some (answers, r)) :
    ∀ i ∈ r.list, ∃ t : Text, Op.write Endpoint.targets.name ('+' :: t) ∈ ops ∧ i.key.text <+: t.stripLineEnd := by
  have hstood : ∀ op ∈ ops, ∀ key, op.added? l = some key →
      ∃ t : Text, Op.write Endpoint.targets.name ('+' :: t) ∈ ops ∧ key.text <+: t.stripLineEnd := fun op hop key hk => by
    obtain ⟨line, s, rfl, hread, rfl⟩ := Op.line_of_added? (hlines op hop) hk
    obtain ⟨t, rfl, hsays⟩ := Command.says_of_read_add hread
    exact ⟨t, hop, hsays.prefix_stripLineEnd⟩
  exact fun i hi => (hnew.run_names hstood hrun).2.2 _ (List.mem_map_of_mem hi)

/-- **The list of targets is one line of each target, in their order, exactly if no listed name holds a line feed.**  It is so
if every line written to add a target has line feeds at its end only.  A line feed in a name makes one line more. -/
theorem targetsList_lines (hnew : New l r₀) (hlines : ∀ op ∈ ops, op.addsDirectly = false)
    (hrun : { r₀ with machine := m }.run ops = some (answers, r)) :
    ∃ t, r.readNamed Endpoint.targetsList.name = .ok t ∧
      (t.Lines (r.list.map TargetInfo.text) ↔ ∀ i ∈ r.list, '\n' ∉ i.key.text) ∧
      ((∀ s : Text, Op.write Endpoint.targets.name ('+' :: s) ∈ ops → '\n' ∉ s.stripLineEnd) →
        t.Lines (r.list.map TargetInfo.text)) ∧
      ∃ ls, t.Lines ls ∧ ls.length = r.list.length + (r.list.flatMap fun i => i.key.text).count '\n' := by
  refine ⟨listText r.list, rfl, listText_lines_iff, fun hends => listText_lines_iff.2 fun i hi hfeed => ?_,
    exists_lines_listText r.list⟩
  obtain ⟨s, hmem, hstood⟩ := hnew.run_stood hlines hrun i hi
  exact hends s hmem (hstood.subset hfeed)

/-- Two targets, each added by a line with a line end of its own. -/
def evenListed : List Op :=
  [.insertFile "/a".toList (Blueprint.twins.image .little), .write Endpoint.targets.name ('+' :: "/a:f\r\n".toList),
    .write Endpoint.targets.name ('+' :: "/a:g 7 pid=3\n".toList)]

theorem targetsList_lines_even :
    ∃ answers r t, (fresh {}).run evenListed = some (answers, r) ∧ r.readNamed Endpoint.targetsList.name = .ok t ∧
      t.Lines (r.list.map TargetInfo.text) ∧
      r.list.map TargetInfo.text = ["/a:f delay_ns=1000000 hits=0".toList, "/a:g delay_ns=7 hits=0 pid=3".toList] := by
  have hrun : ((fresh {}).run evenListed).map (fun p => p.2.list.map TargetInfo.text) =
      some ["/a:f delay_ns=1000000 hits=0".toList, "/a:g delay_ns=7 hits=0 pid=3".toList] := by decide +kernel
  obtain ⟨⟨answers, r⟩, hr, htexts⟩ := Option.map_eq_some_iff.1 hrun
  obtain ⟨t, ht, -, hlines, -⟩ := targetsList_lines (m := {}) .standard (by decide) hr
  refine ⟨answers, r, t, hr, ht, hlines fun s hs => ?_, htexts⟩
  simp only [evenListed, List.mem_cons, Op.write.injEq, List.cons.injEq, reduceCtorEq, List.not_mem_nil, false_or, or_false,
    true_and] at hs
  rcases hs with rfl | rfl <;> decide

/-- **A line end in front of a space gets into the list: one target, two lines, neither of them its text.** -/
theorem targetsList_lines_broken :
    ((fresh {}).run [.insertFile "/a".toList (Blueprint.twins.image .little),
        .write Endpoint.targets.name "+/a:f\n 5".toList]).map
      (fun p => (p.2.list.map TargetInfo.text, p.2.readNamed Endpoint.targetsList.name)) =
        some (["/a:f\n delay_ns=5 hits=0".toList], .ok "/a:f\n delay_ns=5 hits=0\n".toList) ∧
      ¬ Text.Lines "/a:f\n delay_ns=5 hits=0\n".toList ["/a:f\n delay_ns=5 hits=0".toList] ∧
      Text.Lines "/a:f\n delay_ns=5 hits=0\n".toList ["/a:f".toList, " delay_ns=5 hits=0".toList] := by
  decide +kernel

end Registry
end DelayProbe
