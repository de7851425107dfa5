import DelayProbe.Proofs.Replay
import DelayProbe.Proofs.Reprint
/-!
# Origin — names that come in by a line, and whether they go out by one

As long as targets are added by lines only, every name on the list has stood in a line that was accepted
(`Registry.Reached.fromLines`): its path is absolute and without a colon, its symbol starts like a name and is without a
space, and the line that asks to remove it is short enough.  That line takes the target out, exactly if its symbol does not
end in a line end (`Registry.removal_line`).
-/
namespace DelayProbe

/-- The request adds a target past the endpoints, by a call on the registry itself. -/
def Op.addsDirectly : Op → Bool
  | .perform (.add _ _ _) | .execute (.add _) => true
  | _ => false

/-- A name that stood in a line that was accepted. -/
structure Key.Written (l : Limits) (k : Key) : Prop extends k.Addable l where
  fits_line : k.text.byteLength + 1 ≤ l.lineBytes

theorem Spec.Says.byteLength_key_le {l : Limits} {t : Text} {s : Spec} (h : s.Says l t) :
    s.key.text.byteLength ≤ t.byteLength := by
  obtain ⟨rest, rfl, -, -, -, -, -, htail⟩ := h
  obtain ⟨e, rfl⟩ := htail.symbol_prefix.1
  unfold Key.text
  simp only [Text.byteLength_append, Text.byteLength_cons]
  omega

namespace Command

/-- **What a line adds has a name that stood in it.** -/
theorem written_of_read_add {l : Limits} {line : Text} {s : Spec} (h : read l line = .ok (.add s)) : s.key.Written l := by
  have hlen := (byteLength_le_of_read h).2
  obtain ⟨t, rfl, hs⟩ := says_of_read_add h
  have hplus : ('+' : Char).utf8Size = 1 := by decide
  have hkey := hs.byteLength_key_le
  rw [Text.byteLength_cons, hplus] at hlen
  exact ⟨hs.askable.key, by omega⟩

end Command

theorem Endpoint.read_of_request {l : Limits} {e : Endpoint} {input : Text} {c : Command}
    (h : e.request l input = .ok (.execute c)) : e = .targets ∧ Command.read l input = .ok c := by
  cases e with
  | targets =>
    unfold request at h
    cases hr : Command.read l input with
    | error f => rw [hr] at h; cases h
    | ok c' => rw [hr] at h; cases h; exact ⟨rfl, rfl⟩
  | enabled =>
    unfold request at h
    simp only at h
    split at h
    · cases h
    · split at h
      · cases h
      · split at h <;> cases h
  | defaultDelay =>
    unfold request at h
    cases hr : l.readDelay input.stripLineEnd with
    | error f => simp only [hr] at h; cases h
    | ok d => simp only [hr] at h; cases h
  | targetsList | stats => cases h

/-- **A request that adds nothing directly and lists a name is a line that adds it.** -/
theorem Op.line_of_added? {l : Limits} {op : Op} {key : Key} (hop : op.addsDirectly = false) (hk : op.added? l = some key) :
    ∃ line s, op = .write Endpoint.targets.name line ∧ Command.read l line = .ok (.add s) ∧ s.key = key := by
  cases op with
  | perform o =>
    cases o with
    | add => cases hop
    | _ => cases hk
  | execute c =>
    cases c with
    | add => cases hop
    | _ => cases hk
  | write name line =>
    simp only [added?, order?, request?, Option.bind_eq_some_iff] at hk
    obtain ⟨order, ⟨q, ⟨e, hname, hq⟩, hqo⟩, hkey⟩ := hk
    cases q with
    | execute c =>
      cases hqo
      cases c with
      | add s =>
        cases hkey
        cases hr : e.request l line with
        | error f => rw [hr] at hq; cases hq
        | ok q =>
          rw [hr] at hq
          cases hq
          obtain ⟨rfl, hread⟩ := Endpoint.read_of_request hr
          exact ⟨line, s, by rw [Endpoint.name_of_ofName? hname], hread, rfl⟩
      | _ => cases hkey
    | _ => cases hqo
  | _ => cases hk

theorem Op.written_of_added? {l : Limits} {op : Op} {key : Key} (hop : op.addsDirectly = false)
    (hk : op.added? l = some key) : key.Written l := by
  obtain ⟨line, s, -, hread, rfl⟩ := line_of_added? hop hk
  exact Command.written_of_read_add hread

/-- An image with three symbols, two of which differ in a line end. -/
def Blueprint.twins : Blueprint :=
  ⟨[], [⟨.dynamic, [⟨['f', '\n'], 0x400010, by decide⟩, .plain, ⟨['g'], 0x400020, by decide⟩]⟩]⟩

namespace Registry

/-! ## Names on the list -/

/-- Every name on the list has stood in a line. -/
structure FromLines (l : Limits) (r : Registry) : Prop where
  limits_eq : r.limits = l
  distinct : r.Distinct
  written : ∀ k ∈ r.roll.names, k.Written l

variable {l : Limits} {r : Registry}

theorem FromLines.written_of_mem (h : FromLines l r) {s : Slot} (hs : s ∈ r.slots) : s.target.key.Written l := by
  refine h.written _ ?_
  rw [names_roll]
  exact List.mem_map_of_mem hs

/-- A registry that a new one becomes when targets are added by lines only, and `n` probes are armed on the way. -/
inductive Reached (l : Limits) (n : Nat) (r : Registry) : Prop
  | intro {r₀ : Registry} {m : Machine} {ops : List Op} {answers : List Answer} (new : New l r₀)
      (lines : ∀ op ∈ ops, op.addsDirectly = false) (run : { r₀ with machine := m }.run ops = some (answers, r))
      (count : { r₀ with machine := m }.armings ops = n)

namespace Reached

variable {n : Nat}

/-- **Whatever else is done, the names on the list have stood in lines.** -/
theorem fromLines (h : Reached l n r) : FromLines l r := by
  obtain ⟨hnew, hlines, hrun, -⟩ := h
  obtain ⟨hlimits, hd, hwritten⟩ := hnew.run_names (fun op hop key => Op.written_of_added? (hlines op hop)) hrun
  exact ⟨hlimits, hd, hwritten⟩

theorem numbered (h : Reached l n r) (hn : n < 2 ^ 64 - 1) : Numbered l n r := by
  obtain ⟨hnew, -, hrun, rfl⟩ := h
  have h := run_numbered _ (hnew.numbered _) hrun (by rwa [Nat.zero_add])
  rwa [Nat.zero_add] at h

end Reached

/-! ## Taking names off the list -/

/-- **A line that asks to remove a listed name is read as the name without the line end of its symbol.** -/
theorem read_removal {k : Key} (h : k.Written l) : Command.read l ('-' :: k.text) = .ok (.remove k.trimmed) := by
  have hminus : ('-' : Char).utf8Size = 1 := by decide
  have hlen : Text.byteLength ('-' :: k.text) ≤ l.lineBytes := by
    rw [Text.byteLength_cons, hminus, Nat.add_comm]
    exact h.fits_line
  have hsays : k.trimmed.Says l k.text :=
    ⟨k.symbol, rfl, h.no_colon, h.path_fits, h.toAddable.trimmed.symbol_fits, Text.trims_stripLineEnd _⟩
  have hstar : ¬ ['*', '\n'] <+: k.text := fun hp => by
    have hhead : k.text.head? = some '/' := by
      rw [Key.text, List.head?_append, h.absolute]
      rfl
    obtain ⟨e, he⟩ := hp
    rw [← he] at hhead
    exact absurd hhead (by simp)
  exact (Command.read_minus_eq_ok_iff hlen).2 (.inr ⟨Command.isStar_eq_false hstar hsays, k.trimmed, rfl, hsays⟩)

theorem requestNamed_targets (r : Registry) (line : Text) :
    r.requestNamed Endpoint.targets.name line = (Command.read r.limits line).map .execute :=
  r.requestNamed_name .targets line

theorem writeNamed_targets {line : Text} {c : Command} (h : Command.read r.limits line = .ok c) :
    r.writeNamed Endpoint.targets.name line = (r.carryOut (.execute c)).map (·.map fun _ => line.byteLength) := by
  rw [writeNamed, requestNamed_targets, h]
  rfl

theorem writeNamed_targets_of_error {line : Text} {e : Refusal} (h : Command.read r.limits line = .error e) :
    r.writeNamed Endpoint.targets.name line = ⟨.error e, r, []⟩ := by
  rw [writeNamed, requestNamed_targets, h]
  rfl

/-- **To write the line that asks to remove a listed name is to remove that name without the line end of its symbol.** -/
theorem Reached.writeNamed_removal {n : Nat} (h : Reached l n r) {s : Slot} (hs : s ∈ r.slots) :
    let line : Text := '-' :: s.target.key.text
    let o := r.writeNamed Endpoint.targets.name line
    o.reply = (r.remove s.target.key.trimmed).reply.map (fun _ => line.byteLength) ∧
      o.after = (r.remove s.target.key.trimmed).after := by
  intro line o
  have hread : Command.read r.limits line = .ok (.remove s.target.key.trimmed) := by
    rw [h.fromLines.limits_eq]
    exact read_removal (h.fromLines.written_of_mem hs)
  have ho : o = (r.carryOut (.execute (.remove s.target.key.trimmed))).map (·.map fun _ => line.byteLength) :=
    writeNamed_targets hread
  rw [ho]
  refine ⟨?_, rfl⟩
  simp only [carryOut, execute, perform, Command.order, Outcome.map]
  cases (r.remove s.target.key.trimmed).reply <;> rfl

theorem key_ne_of_before (hd : r.Distinct) {as bs : List Slot} {s : Slot} (hs : r.slots = as ++ s :: bs) :
    ∀ x ∈ as, x.target.key ≠ s.target.key := by
  unfold Distinct at hd
  rw [hs, List.map_append, List.nodup_append] at hd
  exact fun x hx => hd.2.2 _ (List.mem_map_of_mem hx) _ (List.mem_map_of_mem List.mem_cons_self)

theorem slot?_of_split (hd : r.Distinct) {as bs : List Slot} {s : Slot} (hs : r.slots = as ++ s :: bs) :
    r.slot? s.target.key = some s :=
  List.find?_eq_some_iff_append.2
    ⟨decide_eq_true rfl, as, bs, hs, fun x hx => by simpa using key_ne_of_before hd hs x hx⟩

/-- What is erased is the first of its kind, and the others stay. -/
theorem eraseP_append_cons {p : Slot → Bool} {as : List Slot} {s : Slot} (has : ∀ x ∈ as, (!p x) = true) (hs : p s = true)
    (bs : List Slot) : (as ++ s :: bs).eraseP p = as ++ bs := by
  rw [List.eraseP_append_right _ fun x hx => by simpa using has x hx, List.eraseP_cons_of_pos hs]

theorem eraseP_of_split (hd : r.Distinct) {as bs : List Slot} {s : Slot} (hs : r.slots = as ++ s :: bs) :
    (r.slots.eraseP fun x => decide (x.target.key = s.target.key)) = as ++ bs := by
  rw [hs]
  exact eraseP_append_cons (fun x hx => by simpa using key_ne_of_before hd hs x hx) (decide_eq_true rfl) bs

theorem remove_of_split (hd : r.Distinct) {as bs : List Slot} {s : Slot} (hs : r.slots = as ++ s :: bs) :
    (r.remove s.target.key).reply = .ok () ∧
      (r.remove s.target.key).after = { r with slots := as ++ bs, backend := r.backend.disarm s.handle } := by
  obtain ⟨hnone, -⟩ | ⟨s', hs', hreply, -, hafter⟩ := remove_cases r s.target.key
  · rw [slot?_of_split hd hs] at hnone
    cases hnone
  · rw [slot?_of_split hd hs] at hs'
    cases hs'
    rw [eraseP_of_split hd hs] at hafter
    exact ⟨hreply, hafter⟩

theorem mem_remove_of_key_ne {s : Slot} (hs : s ∈ r.slots) {key : Key} (hne : s.target.key ≠ key) :
    s ∈ (r.remove key).after.slots := by
  obtain ⟨-, hremove⟩ | ⟨_, -, -, -, hafter⟩ := remove_cases r key
  · rw [hremove]
    exact hs
  · rw [hafter]
    exact (List.mem_eraseP_of_neg (by simpa using hne)).2 hs

/-- **A target whose symbol has no line end is removed by the line that names it**: it and its probe go, and nothing else
changes.  A target whose symbol has one stays, for the line then names another target, or none. -/
theorem removal_line {n : Nat} (h : Reached l n r) {as bs : List Slot} {s : Slot} (hs : r.slots = as ++ s :: bs) :
    let line : Text := '-' :: s.target.key.text
    let o := r.writeNamed Endpoint.targets.name line
    (s.target.key.symbol.KeepsEnd →
      o.reply = .ok line.byteLength ∧
        o.after = { r with slots := as ++ bs, backend := r.backend.disarm s.handle } ∧
        (n < 2 ^ 64 - 1 → o.after.backend.armed = (as ++ bs).map Slot.entry)) ∧
      (¬ s.target.key.symbol.KeepsEnd →
        s ∈ o.after.slots ∧ (r.slot? s.target.key.trimmed = none → o.reply = .error .notFound ∧ o.after = r)) := by
  intro line o
  have hd := h.fromLines.distinct
  have hmem : s ∈ r.slots := hs ▸ List.mem_append_right _ List.mem_cons_self
  obtain ⟨hreply, hafter⟩ : o.reply = _ ∧ o.after = _ := h.writeNamed_removal hmem
  refine ⟨fun hkeep => ?_, fun hkeep => ?_⟩
  · obtain ⟨hok, hgone⟩ := remove_of_split hd hs
    rw [Key.trimmed_eq_self_iff.2 hkeep] at hreply hafter
    rw [hok] at hreply
    refine ⟨hreply, hafter.trans hgone, fun hn => ?_⟩
    have hnumbered := (h.numbered hn).delist (slot?_of_split hd hs)
    rw [eraseP_of_split hd hs] at hnumbered
    rw [hafter, hgone]
    exact hnumbered.armed_eq
  · have hne : s.target.key ≠ s.target.key.trimmed := fun he => hkeep (Key.trimmed_eq_self_iff.1 he.symm)
    refine ⟨hafter ▸ mem_remove_of_key_ne hmem hne, fun hnone => ?_⟩
    have hremove : r.remove s.target.key.trimmed = ⟨.error .notFound, r, []⟩ := by
      rw [remove, hnone]
    rw [hremove] at hreply hafter
    exact ⟨hreply, hafter⟩

/-- A file whose symbols all become targets. -/
def twinsListed : List Op :=
  [.insertFile "/a".toList (Blueprint.twins.image .little),
    .write Endpoint.targets.name "+/a:f\n 5".toList,
    .write Endpoint.targets.name "+/a:f".toList, .write Endpoint.targets.name "+/a:g pid=3".toList]

theorem removal_line_twins :
    ∃ r a b c, Reached {} 3 r ∧ r.slots = [a] ++ b :: [c] ∧ b.target.key = ⟨"/a".toList, ['f']⟩ ∧
      let o := r.writeNamed Endpoint.targets.name ('-' :: b.target.key.text)
      o.reply = .ok 5 ∧ o.after.slots = [a, c] ∧ o.after.backend.armed = [a.entry, c.entry] := by
  have hrun : ((fresh {}).run twinsListed).map (fun p => p.2.slots.map (·.target.key)) =
        some [⟨"/a".toList, ['f', '\n']⟩, ⟨"/a".toList, ['f']⟩, ⟨"/a".toList, ['g']⟩] ∧
      (fresh {}).armings twinsListed = 3 := by decide +kernel
  obtain ⟨⟨answers, r⟩, hr, hkeys⟩ := Option.map_eq_some_iff.1 hrun.1
  obtain ⟨a, tail, hslots, -, htail⟩ := List.map_eq_cons_iff.1 hkeys
  obtain ⟨b, tail, rfl, hb, htail⟩ := List.map_eq_cons_iff.1 htail
  obtain ⟨c, tail, rfl, -, htail⟩ := List.map_eq_cons_iff.1 htail
  obtain rfl := List.map_eq_nil_iff.1 htail
  have hsplit : r.slots = [a] ++ b :: [c] := hslots
  have hreached : Reached {} 3 r := .intro (m := {}) .standard (by decide) hr hrun.2
  obtain ⟨hreply, hafter, harmed⟩ := (removal_line hreached hsplit).1 (Key.trimmed_eq_self_iff.1 (by rw [hb]; decide))
  refine ⟨r, a, b, c, hreached, hsplit, hb, ?_, ?_, harmed (by decide)⟩
  · rw [hreply, hb]
    decide
  · rw [hafter]
    rfl

/-- **The line that names a target whose symbol has a line end removes another one.** -/
theorem removal_line_otherTwin :
    ((fresh {}).run (twinsListed ++ [.read Endpoint.targetsList.name, .write Endpoint.targets.name "-/a:f\n".toList,
        .read Endpoint.targetsList.name])).map (fun p => p.1.drop twinsListed.length) =
      some [.ok (.text ("/a:f\n delay_ns=5 hits=0\n/a:f delay_ns=1000000 hits=0\n" ++
          "/a:g delay_ns=1000000 hits=0 pid=3\n").toList), .ok (.number 6),
        .ok (.text "/a:f\n delay_ns=5 hits=0\n/a:g delay_ns=1000000 hits=0 pid=3\n".toList)] := by
  decide +kernel

end Registry
end DelayProbe
