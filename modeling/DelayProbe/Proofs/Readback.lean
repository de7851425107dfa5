import DelayProbe.Proofs.Origin
/-!
# Readback — the list of targets, read back from its text

A row of the list is a name, a delay, a number of hits and, if there is a filter, a process number; then comes a line feed.
Paths and symbols may hold line feeds of their own, and text that looks like a row.  Still a row says where it ends
(`Row.read_text_append`), because what stands in a line that adds a target has no colon in its path and no space in its symbol:
one reader gets the rows back from the text of every list that lines can make (`Registry.targetsList_determines`).
-/
namespace DelayProbe

/-- What the text of the list says of a target. -/
structure Row where
  key : Key
  delay : UInt64
  hits : UInt64
  filter : Option UInt32
  deriving DecidableEq, Repr

def TargetInfo.row (i : TargetInfo) : Row := ⟨i.key, i.delay, i.hits, i.filter⟩

/-- The number written by the digits in front, and what is behind them. -/
def Decimal.lead (t : Text) : Nat × Text := (value (t.takeWhile Char.isDigit), t.dropWhile Char.isDigit)

namespace Row

/-- The filter and the line feed behind it. -/
def readFilter (t : Text) : Option (Option UInt32 × Text) :=
  match t.dropPrefix? " pid=".toList with
  | none => (t.dropPrefix? ['\n']).map fun rest => (none, rest)
  | some t =>
    let (pid, t) := Decimal.lead t
    (t.dropPrefix? ['\n']).map fun rest => (some (.ofNat pid), rest)

/-- The row in front, and what is behind it. -/
def read (t : Text) : Option (Row × Text) := do
  let (path, t) ← t.cut ':'
  let (symbol, t) ← t.cut ' '
  let t ← t.dropPrefix? "delay_ns=".toList
  let (delay, t) := Decimal.lead t
  let t ← t.dropPrefix? " hits=".toList
  let (hits, t) := Decimal.lead t
  let (filter, t) ← readFilter t
  some (⟨⟨path, symbol⟩, .ofNat delay, .ofNat hits, filter⟩, t)

/-- The rows of a text, at most `count` of them. -/
def readUpTo : Nat → Text → Option (List Row)
  | _, [] => some []
  | 0, _ :: _ => none
  | count + 1, t => (read t).bind fun (row, rest) => (readUpTo count rest).map (row :: ·)

/-- The rows of a text.  A row is not empty, so there are no more of them than characters. -/
def readAll (t : Text) : Option (List Row) := readUpTo t.length t

end Row

/-! ## Reading one row -/

namespace Decimal

/-- **Digits say where they end** if what is behind them does not start with a digit. -/
theorem lead_text_append (n : Nat) {rest : Text} (h : ∀ c ∈ rest.head?, c.isDigit = false) :
    lead (text n ++ rest) = (n, rest) := by
  have hdigits := (isDigits_text n).2
  unfold lead
  rw [List.takeWhile_append_of_pos hdigits, List.dropWhile_append_of_pos hdigits]
  cases rest with
  | nil => rw [List.takeWhile_nil, List.dropWhile_nil, List.append_nil, value_text]
  | cons c rest =>
    have hc : ¬ c.isDigit = true := by
      rw [h c rfl]
      exact Bool.false_ne_true
    rw [List.takeWhile_cons_of_neg hc, List.dropWhile_cons_of_neg hc, List.append_nil, value_text]

end Decimal

namespace Row

theorem dropPrefix?_append (word rest : Text) : (word ++ rest).dropPrefix? word = some rest :=
  List.dropPrefix?_append_of_beq rest (beq_self_eq_true word)

theorem readFilter_text_append (filter : Option UInt32) (rest : Text) :
    readFilter (TargetInfo.filterText filter ++ '\n' :: rest) = some (filter, rest) := by
  have hfeed : List.dropPrefix? ('\n' :: rest) ['\n'] = some rest := dropPrefix?_append ['\n'] rest
  cases filter with
  | none =>
    have hpid : List.dropPrefix? ('\n' :: rest) " pid=".toList = none := by simp [List.dropPrefix?]
    rw [TargetInfo.filterText, List.nil_append, readFilter, hpid]
    simp only [hfeed, Option.map_some]
  | some p =>
    rw [TargetInfo.filterText, List.append_assoc, readFilter, dropPrefix?_append]
    simp only
    rw [Decimal.lead_text_append _ (by simp)]
    simp only [hfeed, Option.map_some, UInt32.ofNat_toNat]

/-- **A row is read back, whatever is behind it**, if its path has no colon and its symbol no space. -/
theorem read_text_append {i : TargetInfo} (hpath : ':' ∉ i.key.path) (hsymbol : ' ' ∉ i.key.symbol) (rest : Text) :
    read (i.text ++ '\n' :: rest) = some (i.row, rest) := by
  -- what is behind the hits starts with a space or with the line feed, so the digits of the hits end there
  have hend : ∀ c ∈ (TargetInfo.filterText i.filter ++ '\n' :: rest).head?, c.isDigit = false := by
    cases i.filter <;> simp [TargetInfo.filterText]
  have htext : i.text ++ '\n' :: rest = i.key.path ++ ':' :: (i.key.symbol ++ ' ' :: ("delay_ns=".toList ++
      (Decimal.text i.delay.toNat ++ (" hits=".toList ++ (Decimal.text i.hits.toNat ++
        (TargetInfo.filterText i.filter ++ '\n' :: rest)))))) := by
    simp [TargetInfo.text, Key.text]
  rw [htext, read, Text.cut_append _ hpath, Option.bind_eq_bind, Option.bind_some]
  simp only
  rw [Text.cut_append _ hsymbol]
  simp only [Option.bind_eq_bind, Option.bind_some]
  rw [dropPrefix?_append, Option.bind_some, Decimal.lead_text_append _ (by simp)]
  simp only
  rw [dropPrefix?_append, Option.bind_some, Decimal.lead_text_append _ hend]
  simp only
  rw [readFilter_text_append, Option.bind_some]
  simp only [UInt64.ofNat_toNat]
  rfl

/-! ## Reading all rows -/

theorem readUpTo_listText : ∀ {l : List TargetInfo} {count : Nat}, (∀ i ∈ l, ':' ∉ i.key.path ∧ ' ' ∉ i.key.symbol) →
    (Registry.listText l).length ≤ count → readUpTo count (Registry.listText l) = some (l.map TargetInfo.row)
  | [], count, _, _ => by cases count <;> rfl
  | i :: l, count, hl, hcount => by
    have htext : Registry.listText (i :: l) = i.text ++ '\n' :: Registry.listText l := by
      simp [Registry.listText]
    rw [htext] at hcount ⊢
    rw [List.length_append, List.length_cons] at hcount
    obtain ⟨hpath, hsymbol⟩ := hl i List.mem_cons_self
    have hread := read_text_append hpath hsymbol (Registry.listText l)
    cases count with
    | zero => omega
    | succ count =>
      have hfits : (Registry.listText l).length ≤ count := by omega
      have hrest := readUpTo_listText (fun j hj => hl j (List.mem_cons_of_mem _ hj)) hfits
      rw [readUpTo, hread, Option.bind_some]
      · simp only [hrest, Option.map_some, List.map_cons]
      · simp

/-- **The text of a list says what its rows are**, and how many. -/
theorem readAll_listText {l : List TargetInfo} (hl : ∀ i ∈ l, ':' ∉ i.key.path ∧ ' ' ∉ i.key.symbol) :
    readAll (Registry.listText l) = some (l.map TargetInfo.row) :=
  readUpTo_listText hl (Nat.le_refl _)

end Row

/-- An image with a symbol that holds line feeds, and looks as if a row ended and two more began in it. -/
def Blueprint.rowlike : Blueprint := ⟨[], [⟨.dynamic, [⟨"f\n/b:g\n/c:h".toList, 0x400010, by decide⟩]⟩]⟩

namespace Registry

variable {l l' : Limits} {n n' : Nat} {r r' : Registry}

/-- A list that lines have made is read back from its text. -/
theorem Reached.readAll_list (h : Reached l n r) : Row.readAll (listText r.list) = some (r.list.map TargetInfo.row) := by
  refine Row.readAll_listText fun i hi => ?_
  obtain ⟨s, hs, rfl⟩ := List.mem_map.1 hi
  have hwritten := h.fromLines.written_of_mem hs
  exact ⟨hwritten.no_colon, hwritten.no_space⟩

/-- **The list of targets can be read back from its text**, by one reader for all registries whose targets were added by lines,
so two of them with the same text have the same targets in the same order, as far as the text goes. -/
theorem targetsList_determines (h : Reached l n r) (h' : Reached l' n' r') :
    (∃ t, r.readNamed Endpoint.targetsList.name = .ok t ∧ Row.readAll t = some (r.list.map TargetInfo.row)) ∧
      (r.readNamed Endpoint.targetsList.name = r'.readNamed Endpoint.targetsList.name →
        r.list.map TargetInfo.row = r'.list.map TargetInfo.row) := by
  have hread : ∀ r : Registry, r.readNamed Endpoint.targetsList.name = .ok (listText r.list) := fun _ => rfl
  refine ⟨⟨_, hread r, h.readAll_list⟩, fun hsame => ?_⟩
  rw [hread, hread, Except.ok.injEq] at hsame
  have hrows := h.readAll_list
  rw [hsame, h'.readAll_list] at hrows
  exact (Option.some.inj hrows).symm

/-- A file whose path looks as if a row ended in it, a target at its symbol, and a change of the target's delay. -/
def rowlikeListed : List Op :=
  [.insertFile "/a hits=0 pid=1\n/a".toList (Blueprint.rowlike.image .little),
    .write Endpoint.targets.name "+/a hits=0 pid=1\n/a:f\n/b:g\n/c:h 7 pid=2".toList,
    .write Endpoint.targets.name "=/a hits=0 pid=1\n/a:f\n/b:g\n/c:h 5 pid=2".toList]

/-- The same target, added with that delay by a shorter line. -/
def rowlikeListedAtOnce : List Op :=
  [.insertFile "/a hits=0 pid=1\n/a".toList (Blueprint.rowlike.image .little),
    .write Endpoint.targets.name "+/a hits=0 pid=1\n/a:f\n/b:g\n/c:h 5pid=2".toList]

theorem targetsList_determines_rowlike :
    ∃ r r', Reached {} 1 r ∧ Reached {} 1 r' ∧
      r.readNamed Endpoint.targetsList.name =
        .ok "/a hits=0 pid=1\n/a:f\n/b:g\n/c:h delay_ns=5 hits=0 pid=2\n".toList ∧
      r.list.map TargetInfo.row = [⟨⟨"/a hits=0 pid=1\n/a".toList, "f\n/b:g\n/c:h".toList⟩, 5, 0, some 2⟩] ∧
      r.list.map TargetInfo.row = r'.list.map TargetInfo.row := by
  have hrun : ((fresh {}).run rowlikeListed).map (fun p => p.2.readNamed Endpoint.targetsList.name) =
        some (.ok "/a hits=0 pid=1\n/a:f\n/b:g\n/c:h delay_ns=5 hits=0 pid=2\n".toList) ∧
      ((fresh {}).run rowlikeListedAtOnce).map (fun p => p.2.readNamed Endpoint.targetsList.name) =
        some (.ok "/a hits=0 pid=1\n/a:f\n/b:g\n/c:h delay_ns=5 hits=0 pid=2\n".toList) ∧
      (fresh {}).armings rowlikeListed = 1 ∧ (fresh {}).armings rowlikeListedAtOnce = 1 := by decide +kernel
  obtain ⟨hrun, hrun', hcount, hcount'⟩ := hrun
  obtain ⟨⟨answers, r⟩, hr, htext⟩ := Option.map_eq_some_iff.1 hrun
  obtain ⟨⟨answers', r'⟩, hr', htext'⟩ := Option.map_eq_some_iff.1 hrun'
  have h : Reached {} 1 r := .intro (m := {}) .standard (by decide) hr hcount
  have h' : Reached {} 1 r' := .intro (m := {}) .standard (by decide) hr' hcount'
  obtain ⟨⟨t, ht, hrows⟩, hsame⟩ := targetsList_determines h h'
  refine ⟨r, r', h, h', htext, ?_, hsame (htext.trans htext'.symm)⟩
  rw [htext, Except.ok.injEq] at ht
  rw [← ht] at hrows
  refine Option.some.inj (hrows.symm.trans ?_)
  decide +kernel

end Registry
end DelayProbe
