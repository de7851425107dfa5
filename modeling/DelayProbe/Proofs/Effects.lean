import DelayProbe.Run
import DelayProbe.Proofs.Bounds
/-!
# Effects — what a request can do to a registry

One lemma for each operation says what it may have done: an addition is refused, uses up a prepared fault, or lists one
target (`Registry.add_cases`); a removal takes out the first slot of its name (`Registry.remove_cases`); letting go of slots
disarms exactly their probes (`Registry.releaseAll_fst`); a hit changes its own slot, and only when it delayed the process
(`Registry.hit_cases`).  Probes are counted as they are armed (`Event.armings`); what is no addition is quiet (`Event.Quiet`).
-/
namespace DelayProbe

namespace Event

/-- The number of probes armed among some events. -/
def armings : List Event → Nat
  | [] => 0
  | .armed _ _ _ :: rest => armings rest + 1
  | _ :: rest => armings rest

theorem armings_append : ∀ a b : List Event, armings (a ++ b) = armings a + armings b
  | [], b => by simp [armings]
  | e :: a, b => by
    have ih := armings_append a b
    cases e <;> simp only [List.cons_append, armings, ih]
    omega

/-- Whether a target was handed to the backend among some events. -/
def handsOver (es : List Event) : Bool :=
  es.any fun
    | .attaching _ => true
    | _ => false

theorem handsOver_append (a b : List Event) : handsOver (a ++ b) = (handsOver a || handsOver b) := List.any_append

/-- No target was handed to the backend and no probe armed. -/
structure Quiet (es : List Event) : Prop where
  armings_eq : armings es = 0
  handsOver_eq : handsOver es = false

theorem Quiet.append {a b : List Event} (ha : Quiet a) (hb : Quiet b) : Quiet (a ++ b) :=
  ⟨by rw [armings_append, ha.armings_eq, hb.armings_eq], by rw [handsOver_append, ha.handsOver_eq, hb.handsOver_eq]; rfl⟩

theorem quiet_searched : ∀ fs : List Image.Finding, Quiet (fs.map .searched)
  | [] => ⟨rfl, rfl⟩
  | _ :: fs => ⟨(quiet_searched fs).armings_eq, (quiet_searched fs).handsOver_eq⟩

end Event

namespace Simulator

def disarmAll (s : Simulator) (ids : List UInt64) : Simulator :=
  { s with armed := s.armed.filter fun e => decide (e.1 ∉ ids) }

theorem disarmAll_nil (s : Simulator) : s.disarmAll [] = s := by
  unfold disarmAll
  rw [List.filter_eq_self.2 (fun _ _ => by simp)]

theorem disarmAll_cons (s : Simulator) (id : UInt64) (ids : List UInt64) :
    s.disarmAll (id :: ids) = (s.disarm id).disarmAll ids := by
  unfold disarmAll disarm Table.erase
  rw [List.filter_filter]
  congr 1
  apply List.filter_congr
  intro e _
  simp [Bool.and_comm]

end Simulator

namespace Target

/-- **A hit leaves everything as it was, or delays the process and is counted on the target and in the totals.** -/
theorem fire_cases {t t' : Target} {c c' : Panel} {p p' : Machine} {descends : UInt32 → UInt32 → Bool} {pid : UInt32}
    {v : Verdict} (h : t.fire c p descends pid = some (v, t', c', p')) :
    v = t.verdict c.enabled descends pid ∧
      ((∀ d, v ≠ .delayed d) ∧ t' = t ∧ c' = c ∧ p' = p ∨
        ∃ d, v = .delayed d ∧ p.wait d = some p' ∧ t' = t.recordHit d ∧ c' = c.recordHit p'.cpuId d) := by
  unfold fire at h
  cases hv : t.verdict c.enabled descends pid with
  | delayed d =>
    rw [hv] at h
    obtain ⟨q, hq, he⟩ := Option.map_eq_some_iff.1 h
    cases he
    exact ⟨rfl, .inr ⟨d, rfl, hq, rfl, rfl⟩⟩
  | disabled | detached | filtered =>
    rw [hv] at h
    cases h
    exact ⟨rfl, .inl ⟨fun _ => by simp, rfl, rfl, rfl⟩⟩

end Target

namespace Registry

/-! ## Adding -/

/-- The registry once a target is armed and listed. -/
def enlist (r : Registry) (t : Target) : Registry :=
  { r with
    slots := r.slots ++ [⟨t, r.backend.nextId⟩]
    backend := { r.backend with
      armed := r.backend.armed.insert r.backend.nextId ⟨t.key.path, t.offset⟩, nextId := r.backend.nextId + 1 } }

/-- A name that is not listed makes no two alike when it is put at the end. -/
theorem nodup_names_concat {r : Registry} {key : Key} (hn : (r.slots.map (·.target.key)).Nodup) (hnew : r.slot? key = none) :
    (r.slots.map (·.target.key) ++ [key]).Nodup := by
  refine List.nodup_append.2 ⟨hn, by simp, fun a ha b hb => ?_⟩
  obtain ⟨s, hs, rfl⟩ := List.mem_map.1 ha
  have hne := List.find?_eq_none.1 hnew s hs
  rw [List.mem_singleton.1 hb]
  simpa using hne

def useFault (r : Registry) : Registry := { r with backend := { r.backend with failNext := none } }

/-- What arming a target comes to once it is handed to the backend: a prepared fault is used up and reported, or the target
is listed. -/
def Arms (r : Registry) (t : Target) (o : Outcome (Except Refusal Unit)) : Prop :=
  Event.handsOver o.events = true ∧
    ((∃ f, r.backend.failNext = some f ∧ o.reply = .error (.attachFailed f) ∧ o.after = r.useFault ∧
        Event.armings o.events = 0) ∨
      (r.backend.failNext = none ∧ o.reply = .ok () ∧ o.after = r.enlist t ∧ Event.armings o.events = 1))

theorem attach_arms (r : Registry) (t : Target) (pid : Option UInt32) : r.Arms t (r.attach t pid) := by
  unfold attach Simulator.arm
  cases hf : r.backend.failNext with
  | some f => exact ⟨rfl, .inl ⟨f, hf, rfl, rfl, rfl⟩⟩
  | none => exact ⟨rfl, .inr ⟨hf, rfl, by simp [enlist, hf], rfl⟩⟩

theorem checkInsertable_eq_ok_iff {r : Registry} {key : Key} :
    r.checkInsertable key = .ok () ↔ r.slot? key = none ∧ r.slots.length < r.limits.targets := by
  unfold checkInsertable
  cases r.slot? key with
  | some s => simp
  | none =>
    by_cases h : r.limits.targets ≤ r.slots.length
    · simp [h]
    · simp [h, Nat.lt_of_not_le h]

theorem checkAdd_eq_ok_iff {r : Registry} {key : Key} {delay : UInt64} :
    r.checkAdd key delay = .ok () ↔
      delay ≤ r.limits.longestDelay ∧ r.slot? key = none ∧ r.slots.length < r.limits.targets := by
  rw [← checkInsertable_eq_ok_iff, ← Limits.checkDelay_eq_ok_iff]
  unfold checkAdd
  cases r.limits.checkDelay delay with
  | error e => simp
  | ok _ => simp

theorem placeIn_quiet (key : Key) (im : Image) : Event.Quiet (placeIn key im).2 := by
  unfold placeIn
  cases im.resolve key.symbol with
  | ok p => exact Event.quiet_searched _
  | error u => exact (Event.quiet_searched _).append ⟨rfl, rfl⟩

variable {r : Registry} {key : Key} {delay : UInt64} {im : Image}

theorem add_of_checkAdd {e : Refusal} (hc : r.checkAdd key delay = .error e) (pid : Option UInt32) :
    r.add key delay pid = ⟨.error e, r, []⟩ := by
  unfold add
  rw [hc]

theorem add_of_no_file (hc : r.checkAdd key delay = .ok ()) (hf : r.backend.file? key.path = none) (pid : Option UInt32) :
    r.add key delay pid = ⟨.error (.attachFailed (.kind .notFound)), r, [.opening key.path, .noSuchFile]⟩ := by
  unfold add openFile
  simp only [hc, hf, Option.isSome_none, Bool.false_eq_true, if_false]

theorem add_of_unresolved (hc : r.checkAdd key delay = .ok ()) (hf : r.backend.file? key.path = some im) {u : Unresolved}
    (hu : im.resolve key.symbol = .error u) (pid : Option UInt32) :
    r.add key delay pid =
      ⟨.error (.ofUnresolved u), r, .opening key.path :: .reading key.path :: (placeIn key im).2⟩ := by
  unfold add openFile readFile install
  simp only [hc, hf, Option.isSome_some, if_true]
  unfold placeIn
  rw [hu]
  rfl

/-- **An addition that passed every check and found its symbol comes to arming the new target.** -/
theorem add_arms (hc : r.checkAdd key delay = .ok ()) (hf : r.backend.file? key.path = some im) {p : Place}
    (hp : im.resolve key.symbol = .ok p) (pid : Option UInt32) :
    r.Arms (newTarget key p.offset delay pid) (r.add key delay pid) := by
  have hplaced : placeIn key im = (.ok p.offset, (im.findings key.symbol).map Event.searched) := by
    unfold placeIn
    rw [hp]
  have hquiet := placeIn_quiet key im
  have hins := checkInsertable_eq_ok_iff.2 (checkAdd_eq_ok_iff.1 hc).2
  have ha := attach_arms r (newTarget key p.offset delay pid) pid
  rw [hplaced] at hquiet
  unfold add openFile readFile install
  simp only [hc, hf, Option.isSome_some, if_true, hplaced, hins]
  simpa only [Arms, Event.armings_append, Event.armings, hquiet.armings_eq, Nat.zero_add, Event.handsOver_append, ha.1,
    Bool.or_true] using ha

/-- **An addition is refused before it comes to the backend and changes nothing, or it passed every check, found the symbol
in the file, and came to arming the new target.** -/
theorem add_cases (r : Registry) (key : Key) (delay : UInt64) (pid : Option UInt32) :
    ((∃ e, (r.add key delay pid).reply = .error e) ∧ (r.add key delay pid).after = r ∧
        Event.Quiet (r.add key delay pid).events) ∨
      ∃ im p, r.checkAdd key delay = .ok () ∧ r.backend.file? key.path = some im ∧ im.resolve key.symbol = .ok p ∧
        r.Arms (newTarget key p.offset delay pid) (r.add key delay pid) := by
  cases hc : r.checkAdd key delay with
  | error e =>
    rw [add_of_checkAdd hc]
    exact .inl ⟨⟨e, rfl⟩, rfl, rfl, rfl⟩
  | ok _ =>
    cases hf : r.backend.file? key.path with
    | none =>
      rw [add_of_no_file hc hf]
      exact .inl ⟨⟨_, rfl⟩, rfl, rfl, rfl⟩
    | some im =>
      cases hp : im.resolve key.symbol with
      | error u =>
        rw [add_of_unresolved hc hf hp]
        exact .inl ⟨⟨_, rfl⟩, rfl, (placeIn_quiet key im).armings_eq, (placeIn_quiet key im).handsOver_eq⟩
      | ok p => exact .inr ⟨im, p, rfl, rfl, hp, add_arms hc hf hp pid⟩

/-! ## Removing -/

theorem release_fst (r : Registry) (s : Slot) : (r.release s).1 = { r with backend := r.backend.disarm s.handle } := rfl

theorem release_quiet (r : Registry) (s : Slot) : Event.Quiet (r.release s).2 := by
  unfold release
  split <;> exact ⟨rfl, rfl⟩

/-- **Letting go of slots disarms their probes and changes nothing else.** -/
theorem releaseAll_fst : ∀ (ss : List Slot) (r : Registry),
    (r.releaseAll ss).1 = { r with backend := r.backend.disarmAll (ss.map (·.handle)) }
  | [], r => by
    rw [List.map_nil, Simulator.disarmAll_nil]
    rfl
  | s :: ss, r => by
    rw [List.map_cons, Simulator.disarmAll_cons]
    unfold releaseAll
    rw [releaseAll_fst ss, release_fst]

theorem releaseAll_quiet : ∀ (ss : List Slot) (r : Registry), Event.Quiet (r.releaseAll ss).2
  | [], _ => ⟨rfl, rfl⟩
  | s :: ss, r => (release_quiet r s).append (releaseAll_quiet ss _)

/-- **A removal takes out the first slot of that name and disarms its probe, or finds none.** -/
theorem remove_cases (r : Registry) (key : Key) :
    (r.slot? key = none ∧ r.remove key = ⟨.error .notFound, r, []⟩) ∨
      ∃ s, r.slot? key = some s ∧ (r.remove key).reply = .ok () ∧ Event.Quiet (r.remove key).events ∧
        (r.remove key).after =
          { r with
            slots := r.slots.eraseP fun s => decide (s.target.key = key), backend := r.backend.disarm s.handle } := by
  unfold remove
  cases hs : r.slot? key with
  | none => exact .inl ⟨rfl, rfl⟩
  | some s => exact .inr ⟨s, rfl, rfl, (release_quiet _ s).append ⟨rfl, rfl⟩, rfl⟩

theorem removeAll_after (r : Registry) :
    r.removeAll.after = { r with slots := [], backend := r.backend.disarmAll (r.slots.map (·.handle)) } := by
  unfold removeAll
  simp only [releaseAll_fst]

theorem removeAll_quiet (r : Registry) : Event.Quiet r.removeAll.events :=
  (releaseAll_quiet r.slots _).append ⟨rfl, rfl⟩

theorem shutdown_after (r : Registry) :
    r.shutdown.after =
      { r with
        slots := [], panel := { r.panel with enabled := false }
        backend := r.backend.disarmAll (r.slots.map (·.handle)) } := by
  unfold shutdown
  rw [removeAll_after]

theorem shutdown_quiet (r : Registry) : Event.Quiet r.shutdown.events := (removeAll_quiet _).append ⟨rfl, rfl⟩

/-! ## Changing -/

/-- **An update retunes the first slot of that name, or is refused and changes nothing.** -/
theorem update_cases (r : Registry) (key : Key) (delay : UInt64) (pid : Option UInt32) :
    (∃ e, r.update key delay pid = ⟨.error e, r, []⟩) ∨
      ∃ s, delay ≤ r.limits.longestDelay ∧ r.slot? key = some s ∧ (r.update key delay pid).reply = .ok () ∧
        Event.Quiet (r.update key delay pid).events ∧
        (r.update key delay pid).after =
          { r with slots := modifyFirst (fun s => decide (s.target.key = key)) (retune delay pid) r.slots } := by
  unfold update
  cases hd : r.limits.checkDelay delay with
  | error e => exact .inl ⟨e, rfl⟩
  | ok _ =>
    cases hs : r.slot? key with
    | none => exact .inl ⟨_, rfl⟩
    | some s => exact .inr ⟨s, Limits.checkDelay_eq_ok_iff.1 hd, rfl, rfl, ⟨rfl, rfl⟩, rfl⟩

theorem setDefaultDelay_cases (r : Registry) (delay : UInt64) :
    (∃ e, r.setDefaultDelay delay = ⟨.error e, r, []⟩) ∨
      delay ≤ r.limits.longestDelay ∧ (r.setDefaultDelay delay).reply = .ok () ∧
        Event.Quiet (r.setDefaultDelay delay).events ∧
        (r.setDefaultDelay delay).after = { r with panel := { r.panel with defaultDelay := delay } } := by
  unfold setDefaultDelay
  cases hd : r.limits.checkDelay delay with
  | error e => exact .inl ⟨e, rfl⟩
  | ok _ => exact .inr ⟨Limits.checkDelay_eq_ok_iff.1 hd, rfl, ⟨rfl, rfl⟩, rfl⟩

/-- What is the same of two slots is the same all along a list, if it is the same where the list is changed. -/
theorem map_modifyFirst {β : Type} (g : Slot → β) (p : Slot → Bool) (f : Target → Target) :
    ∀ ss : List Slot, (∀ s, ss.find? p = some s → g { s with target := f s.target } = g s) →
      (modifyFirst p f ss).map g = ss.map g
  | [], _ => rfl
  | s :: ss, h => by
    unfold modifyFirst
    cases hp : p s with
    | true =>
      rw [if_pos rfl, List.map_cons, List.map_cons, h s (List.find?_cons_of_pos hp)]
    | false =>
      rw [if_neg (by simp), List.map_cons, List.map_cons, map_modifyFirst g p f ss]
      intro x hx
      exact h x (by rw [List.find?_cons_of_neg (by simp [hp])]; exact hx)

theorem mem_modifyFirst {p : Slot → Bool} {f : Target → Target} {x : Slot} : ∀ {ss : List Slot},
    x ∈ modifyFirst p f ss → x ∈ ss ∨ ∃ s, ss.find? p = some s ∧ x = { s with target := f s.target }
  | [], h => .inl h
  | s :: ss, h => by
    unfold modifyFirst at h
    cases hp : p s with
    | true =>
      rw [hp, if_pos rfl] at h
      rcases List.mem_cons.1 h with rfl | h
      · exact .inr ⟨s, List.find?_cons_of_pos hp, rfl⟩
      · exact .inl (List.mem_cons_of_mem _ h)
    | false =>
      rw [hp, if_neg (by simp)] at h
      rcases List.mem_cons.1 h with rfl | h
      · exact .inl List.mem_cons_self
      · rcases mem_modifyFirst h with h | ⟨y, hy, rfl⟩
        · exact .inl (List.mem_cons_of_mem _ h)
        · exact .inr ⟨y, by rw [List.find?_cons_of_neg (by simp [hp])]; exact hy, rfl⟩

/-! ## Hits -/

theorem modifyFirst_self {p : Slot → Bool} {s : Slot} {ss : List Slot} (h : ss.find? p = some s) :
    modifyFirst p (fun _ => s.target) ss = ss := by
  have hm := map_modifyFirst id p (fun _ => s.target) ss (fun x hx => by
    rw [h] at hx
    cases hx
    rfl)
  rwa [List.map_id, List.map_id] at hm

/-- **A hit on the probe of a slot is told the verdict of its target; it leaves the registry as it was, or delays the
process and is counted.** -/
theorem hit_cases {r r' : Registry} {handle : UInt64} {pid : UInt32} {v : Verdict} {s : Slot}
    (hs : r.slots.find? (fun s => decide (s.handle = handle)) = some s) (h : r.hit handle pid = some (v, r')) :
    v = s.target.verdict r.panel.enabled r.backend.descends pid ∧
      ((∀ d, v ≠ .delayed d) ∧ r' = r ∨
        ∃ d m, v = .delayed d ∧ r.machine.wait d = some m ∧
          r' = { r with
            slots := modifyFirst (fun s => decide (s.handle = handle)) (fun _ => s.target.recordHit d) r.slots
            panel := r.panel.recordHit m.cpuId d, machine := m }) := by
  unfold hit at h
  rw [hs] at h
  obtain ⟨⟨v', t', c', m'⟩, hf, he⟩ := Option.map_eq_some_iff.1 h
  cases he
  obtain ⟨hv, hcase⟩ := Target.fire_cases hf
  refine ⟨hv, ?_⟩
  rcases hcase with ⟨hd, rfl, rfl, rfl⟩ | ⟨d, hd, hw, rfl, rfl⟩
  · exact .inl ⟨hd, by rw [modifyFirst_self hs]⟩
  · exact .inr ⟨d, m', hd, hw, rfl⟩

theorem hit_unlisted {r : Registry} {handle : UInt64} {pid : UInt32}
    (hs : r.slots.find? (fun s => decide (s.handle = handle)) = none) :
    r.hit handle pid = some (if r.panel.enabled then .detached else .disabled, r) := by
  unfold hit
  rw [hs]

theorem hit_backend {r r' : Registry} {handle : UInt64} {pid : UInt32} {v : Verdict} (h : r.hit handle pid = some (v, r')) :
    r'.backend = r.backend := by
  cases hs : r.slots.find? (fun s => decide (s.handle = handle)) with
  | none =>
    rw [hit_unlisted hs] at h
    cases h
    rfl
  | some s =>
    rcases (hit_cases hs h).2 with ⟨-, rfl⟩ | ⟨d, m, -, -, rfl⟩
    · rfl
    · rfl

theorem hitAll_cons_eq_some_iff {pid : UInt32} {handle : UInt64} {hs : List UInt64} {r r' : Registry} {vs : List Verdict} :
    hitAll pid (handle :: hs) r = some (vs, r') ↔
      ∃ v r₁ rest, r.hit handle pid = some (v, r₁) ∧ hitAll pid hs r₁ = some (rest, r') ∧ vs = v :: rest := by
  rw [hitAll]
  cases r.hit handle pid with
  | none => simp
  | some p =>
    simp only [Option.map_eq_some_iff, Option.some.injEq]
    constructor
    · rintro ⟨⟨rest, r₂⟩, hrest, he⟩
      cases he
      exact ⟨p.1, p.2, rest, rfl, hrest, rfl⟩
    · rintro ⟨v, r₁, rest, rfl, hrest, rfl⟩
      exact ⟨(rest, r'), hrest, rfl⟩

theorem hitAll_backend (pid : UInt32) : ∀ (hs : List UInt64) {r r' : Registry} {vs : List Verdict},
    hitAll pid hs r = some (vs, r') → r'.backend = r.backend
  | [], _, _, _, h => by
    cases h
    rfl
  | _ :: hs, _, _, _, h => by
    obtain ⟨v, r₁, rest, hv, hrest, -⟩ := hitAll_cons_eq_some_iff.1 h
    exact (hitAll_backend pid hs hrest).trans (hit_backend hv)

end Registry
end DelayProbe
