import DelayProbe.Proofs.Ancestry
import DelayProbe.Proofs.Idle
import DelayProbe.Proofs.Replay
import DelayProbe.Proofs.Accrual
import Mathlib.Algebra.GroupWithZero.Nat
/-!
# Passing — what a process is told where it passes, and what that leaves behind

Whoever looks at the list can foretell a passage: every target at the place answers for itself (`Registry.tells`), and what the
passage leaves behind is the registry with the answers taken down (`Registry.heard`).  On the way the targets are hit one by one,
each hit in the registry that the earlier ones left; they do not disturb one another, since a hit changes nothing that an answer
depends on (`Registry.hitAll_eq_heard`).
-/
namespace DelayProbe

/-- The target of a slot after what it told a process: a delay is one more hit. -/
def Slot.heard (s : Slot) : Verdict → Slot
  | .delayed d => { s with target := { s.target with hits := s.target.hits + 1, delays := s.target.delays + d } }
  | _ => s

/-- A target as it is listed after what it told a process. -/
def TargetInfo.heard (i : TargetInfo) : Verdict → TargetInfo
  | .delayed d => i.counted d
  | _ => i

/-- How long a process stands still for all the delays it is told of, on the mock clock. -/
def standing (vs : List Verdict) : Nat := ((delaysIn vs).map Machine.span).sum

theorem standing_cons (v : Verdict) (vs : List Verdict) : standing (v :: vs) = standing [v] + standing vs := by
  unfold standing
  rw [delaysIn_cons, List.map_append, List.sum_append]

namespace Slot

@[simp] theorem heard_key (s : Slot) (v : Verdict) : (s.heard v).target.key = s.target.key := by cases v <;> rfl

theorem heard_info (s : Slot) (v : Verdict) : (s.heard v).target.info = s.target.info.heard v := by cases v <;> rfl

theorem heard_of_delay?_eq_none {v : Verdict} (h : v.delay? = none) (s : Slot) : s.heard v = s := by
  cases v with
  | delayed d => cases h
  | _ => rfl

end Slot

namespace Registry

variable {r : Registry} {pid : UInt32}

/-- What a listed target tells a process that passes: nothing happens while the switch is off or if the target is kept for a
process that the passing one does not descend from, and otherwise it is delayed as the target has it. -/
def tells (r : Registry) (pid : UInt32) (i : TargetInfo) : Verdict :=
  if r.panel.enabled = false then .disabled
  else if ∃ f ∈ i.filter, ¬ r.backend.Reaches pid f then .filtered
  else .delayed i.delay

/-- The registry after targets said something to a process: every delay is counted on its target and in the totals, and took its
time. -/
def heard (r : Registry) (say : TargetInfo → Verdict) (ss : List Slot) : Registry :=
  { r with
    slots := r.slots.map fun s => if s ∈ ss then s.heard (say s.target.info) else s
    panel := { r.panel with
      hits := (delaysIn (ss.map fun s => say s.target.info)).foldl (fun c _ => c.addOn r.machine.cpuId 1) r.panel.hits
      delays := (delaysIn (ss.map fun s => say s.target.info)).foldl (·.addOn r.machine.cpuId ·) r.panel.delays }
    machine := r.machine.idle (standing (ss.map fun s => say s.target.info)) }

theorem tells_ne_detached (i : TargetInfo) : r.tells pid i ≠ .detached := by
  unfold tells
  split
  · simp
  · split <;> simp

/-- **A target that is attached decides as it is foretold.** -/
theorem verdict_eq_tells (r : Registry) (pid : UInt32) {t : Target} (h : t.attached = true) :
    t.verdict r.panel.enabled r.backend.descends pid = r.tells pid t.info := by
  have hfilter : (t.filter.any fun f => !r.backend.descends pid f) = true ↔ ∃ f ∈ t.filter, ¬ r.backend.Reaches pid f := by
    simp [Option.any_eq_true, Simulator.descends_eq_decide]
  unfold Target.verdict tells
  cases r.panel.enabled with
  | false => rfl
  | true =>
    simp only [h, hfilter, Target.info]
    rfl

/-! ## One target -/

theorem tells_congr {r' : Registry} (he : r'.panel.enabled = r.panel.enabled) (hb : r'.backend = r.backend) :
    r'.tells pid = r.tells pid := by
  unfold tells
  rw [he, hb]

theorem tells_heard (r : Registry) (pid : UInt32) (say : TargetInfo → Verdict) (ss : List Slot) :
    (r.heard say ss).tells pid = r.tells pid :=
  tells_congr rfl rfl

variable {say : TargetInfo → Verdict}

/-- **Nothing changes when nobody is delayed.** -/
theorem heard_eq_self {ss : List Slot} (h : ∀ s ∈ ss, (say s.target.info).delay? = none) : r.heard say ss = r := by
  have hdelays : delaysIn (ss.map fun s => say s.target.info) = [] := by
    unfold delaysIn
    rw [List.filterMap_map, List.filterMap_eq_nil_iff]
    exact h
  have hslots : (r.slots.map fun s => if s ∈ ss then s.heard (say s.target.info) else s) = r.slots := by
    refine (List.map_congr_left fun s _ => ?_).trans (List.map_id r.slots)
    by_cases hs : s ∈ ss
    · rw [if_pos hs]
      exact Slot.heard_of_delay?_eq_none (h s hs) s
    · exact if_neg hs
  unfold heard standing
  simp only [hdelays, hslots, List.map_nil, List.sum_nil, List.foldl_nil, Machine.idle_zero]

/-- **What several targets say can be heard one by one**, if no two have the same name. -/
theorem heard_cons {x : Slot} {ss : List Slot} (hn : ((x :: ss).map (·.target.key)).Nodup) :
    r.heard say (x :: ss) = (r.heard say [x]).heard say ss := by
  have hslots : (r.slots.map fun s => if s ∈ x :: ss then s.heard (say s.target.info) else s) =
      (r.slots.map fun s => if s ∈ [x] then s.heard (say s.target.info) else s).map fun s =>
        if s ∈ ss then s.heard (say s.target.info) else s := by
    rw [List.map_map]
    refine List.map_congr_left fun s _ => ?_
    by_cases hs : s = x
    · have hnot : x.heard (say x.target.info) ∉ ss := fun hm => key_ne_of_nodup hn hm (Slot.heard_key _ _)
      simp only [Function.comp_apply, hs, List.mem_cons, List.not_mem_nil, true_or, if_true, if_neg hnot]
    · simp [hs]
  unfold heard
  simp only [hslots, Machine.idle_idle, Machine.idle_cpuId, List.map_cons, List.map_nil]
  rw [standing_cons, delaysIn_cons, List.foldl_append, List.foldl_append]

/-- **A hit on the probe of a listed target leaves behind what the target told.** -/
theorem hit_eq_heard {l : Limits} (h : Sound l r) {x : Slot} (hx : x ∈ r.slots) (hclock : r.machine.clock = none)
    (hround : r.machine.mockTime.toNat + standing [r.tells pid x.target.info] < 2 ^ 64) :
    r.hit x.handle pid = some (r.tells pid x.target.info, r.heard (r.tells pid) [x]) := by
  have hfind := h.find?_handle hx
  have hv := verdict_eq_tells r pid (h.attached x hx)
  have quiet : (r.tells pid x.target.info).delay? = none → r.heard (r.tells pid) [x] = r := fun hq =>
    heard_eq_self fun s hs => (List.mem_singleton.1 hs) ▸ hq
  unfold hit
  rw [hfind]
  simp only [Target.fire, hv]
  cases ht : r.tells pid x.target.info with
  | delayed d =>
    have hone : standing [.delayed d] = Machine.span d := Nat.add_zero _
    rw [ht, hone] at hround
    have hslots : modifyFirst (fun s => decide (s.handle = x.handle)) (fun _ => x.target.recordHit d) r.slots =
        r.slots.map fun s => if s ∈ [x] then s.heard (r.tells pid s.target.info) else s := by
      rw [modifyFirst_congr (g := (·.recordHit d)) hfind rfl, modifyFirst_eq_map h.keys_nodup hfind]
      refine List.map_congr_left fun s hs => ?_
      by_cases hk : s.target.key = x.target.key
      · have he : s = x := List.inj_on_of_nodup_map h.keys_nodup hs hx hk
        simp only [he, List.mem_singleton, if_true, ht, Slot.heard]
        rfl
      · have he : s ≠ x := fun he => hk (he ▸ rfl)
        simp only [hk, he, List.mem_singleton, if_false]
    simp only [Machine.wait_eq_idle hclock hround, Option.map_some, hslots]
    unfold heard
    simp only [List.map_cons, List.map_nil, ht, hone, Machine.idle_cpuId]
    rfl
  | disabled | detached | filtered =>
    rw [quiet (by rw [ht]; rfl)]
    simp only [Option.map_some, modifyFirst_self hfind]

/-! ## All targets of a place -/

/-- **Targets that are hit one after the other tell what each of them would tell alone**, and it is all heard. -/
theorem hitAll_eq_heard {l : Limits} {n : Nat} (pid : UInt32) : ∀ (ss : List Slot) {r : Registry},
    Numbered l n r → (∀ s ∈ ss, s ∈ r.slots) → (ss.map (·.target.key)).Nodup →
    r.machine.clock = none → r.machine.mockTime.toNat + standing (ss.map fun s => r.tells pid s.target.info) < 2 ^ 64 →
      hitAll pid (ss.map (·.handle)) r = some (ss.map fun s => r.tells pid s.target.info, r.heard (r.tells pid) ss)
  | [], r, _, _, _, _, _ => by
    have hnil : r.heard (r.tells pid) [] = r := heard_eq_self fun s hs => (by cases hs)
    rw [hnil]
    rfl
  | x :: ss, r, h, hss, hn, hclock, hround => by
    rw [List.map_cons, standing_cons] at hround
    have hfirst : r.machine.mockTime.toNat + standing [r.tells pid x.target.info] < 2 ^ 64 := by omega
    have hhit := hit_eq_heard h.toSound (hss x List.mem_cons_self) hclock hfirst
    have htells := tells_heard r pid (r.tells pid) [x]
    have htime : (r.heard (r.tells pid) [x]).machine.mockTime.toNat =
        r.machine.mockTime.toNat + standing [r.tells pid x.target.info] := Machine.toNat_idle hfirst
    have hlisted : ∀ s ∈ ss, s ∈ (r.heard (r.tells pid) [x]).slots := fun s hs => by
      have hne : s ≠ x := fun he => key_ne_of_nodup hn hs (he ▸ rfl)
      exact List.mem_map.2 ⟨s, hss s (List.mem_cons_of_mem _ hs), if_neg (by simpa using hne)⟩
    -- what the rest tells in the registry after the first hit is what it tells in `r`
    have ih := hitAll_eq_heard pid ss (hit_numbered h hhit) hlisted (List.nodup_cons.1 hn).2
      ((Machine.idle_clock _ _).trans hclock) (by rw [htells, htime]; omega)
    rw [htells] at ih
    rw [heard_cons hn]
    exact hitAll_cons_eq_some_iff.2 ⟨_, _, _, hhit, ih, rfl⟩

/-! ## What is heard -/

/-- A delay is one more hit of the target that told it, and only of that one. -/
theorem list_heard {probe : Probe} (r : Registry) (say : TargetInfo → Verdict) :
    (r.heard say (r.slots.filter fun s => decide (s.target.info.probe = probe))).list =
      r.list.map fun i => if i.probe = probe then i.heard (say i) else i := by
  simp only [list, heard, List.map_map]
  refine List.map_congr_left fun s hs => ?_
  have hmem : s ∈ r.slots.filter (fun s => decide (s.target.info.probe = probe)) ↔ s.target.info.probe = probe := by
    simp [List.mem_filter, hs]
  by_cases hp : s.target.info.probe = probe
  · simp only [Function.comp_apply, if_pos (hmem.2 hp), if_pos hp, Slot.heard_info]
  · simp only [Function.comp_apply, if_neg (mt hmem.1 hp), if_neg hp]

/-- Every delay is one more hit in the totals. -/
theorem totals_heard (r : Registry) (say : TargetInfo → Verdict) (ss : List Slot) :
    let ds := delaysIn (ss.map fun s => say s.target.info)
    (r.heard say ss).panel.totalHits = r.panel.totalHits + UInt64.ofNat ds.length ∧
      (r.heard say ss).panel.totalDelay = r.panel.totalDelay + ds.sum := by
  intro ds
  have hits := Counter.sum_foldl_addOn r.machine.cpuId (fun _ => 1) ds r.panel.hits
  have delays := Counter.sum_foldl_addOn r.machine.cpuId id ds r.panel.delays
  rw [sum_map_one] at hits
  rw [List.map_id] at delays
  exact ⟨hits, delays⟩

/-- **A process that passes a place is told by every listed target there, in their order**, what the target has for it, and that is
all it meets: no probe there is without a target.  The passage takes its time on the mock clock, counts each delay as one hit on
the target that told it and in the totals, and changes nothing else; if nobody delays the process, nothing.  This holds of
whatever can be done to a new registry for as long as numbers for probes last, whatever the machine it runs on, if no clock is
installed there and the mock clock does not come round during the passage. -/
theorem trigger_eq_heard {l : Limits} {r₀ : Registry} {m : Machine} {ops : List Op} {answers : List Answer} (hnew : New l r₀)
    (hrun : { r₀ with machine := m }.run ops = some (answers, r))
    (hfew : { r₀ with machine := m }.armings ops < 2 ^ 64 - 1) {p : Machine} (hclock : p.clock = none) (probe : Probe)
    (pid : UInt32) :
    let s := { r with machine := p }
    let here := s.slots.filter fun x => decide (x.target.info.probe = probe)
    let vs := (s.list.filter fun i => decide (i.probe = probe)).map (s.tells pid)
    let after := s.heard (s.tells pid) here
    p.mockTime.toNat + standing vs < 2 ^ 64 →
      s.trigger probe pid = some (vs, after) ∧ .detached ∉ vs ∧
        after.machine.mockTime.toNat = p.mockTime.toNat + standing vs ∧
        after.list = (s.list.map fun i => if i.probe = probe then i.heard (s.tells pid i) else i) ∧
        (after.panel.totalHits = s.panel.totalHits + UInt64.ofNat (delaysIn vs).length ∧
          after.panel.totalDelay = s.panel.totalDelay + (delaysIn vs).sum) ∧
        (s.panel.enabled = false ∨ (∀ v ∈ vs, v = .filtered) → after = s) := by
  intro s here vs after hround
  have hnumbered : Numbered l _ s :=
    (run_numbered ops (hnew.numbered m) hrun (by rwa [Nat.zero_add])).of_same_slots rfl rfl rfl rfl rfl
  have hvs : vs = here.map fun x => s.tells pid x.target.info := by
    show ((s.slots.map _).filter _).map _ = _
    rw [List.filter_map, List.map_map]
    rfl
  have hsub : here.Sublist s.slots := List.filter_sublist
  have hall := hitAll_eq_heard pid here hnumbered (fun x hx => hsub.subset hx) (hnumbered.keys_nodup.sublist (hsub.map _))
    hclock (by rw [← hvs]; exact hround)
  refine ⟨?_, fun hd => ?_, ?_, list_heard s (s.tells pid), hvs ▸ totals_heard s (s.tells pid) here,
    fun hquiet => heard_eq_self fun x hx => ?_⟩
  · rw [hvs, ← hall, trigger, hnumbered.toSound.armedAt_eq]
  · obtain ⟨i, -, hi⟩ := List.mem_map.1 hd
    exact tells_ne_detached i hi
  · rw [hvs] at hround ⊢
    exact Machine.toNat_idle hround
  · rcases hquiet with hoff | hfiltered
    · rw [tells, if_pos hoff]
      rfl
    · have hf : s.tells pid x.target.info = .filtered := hfiltered _ (by rw [hvs]; exact List.mem_map_of_mem hx)
      rw [hf]
      rfl

/-- Two targets at one place, kept for processes 3 and 4, and a child of the first of them. -/
def twoKept : List Op :=
  [.insertFile ['/'] (Blueprint.aliased.image .little), .perform (.add ⟨['/'], ['f']⟩ 5 (some 3)),
    .perform (.add ⟨['/'], ['h']⟩ 9 (some 4)), .setParent 7 3, .setEnabled true]

theorem trigger_eq_heard_twoKept :
    ∃ answers r r', (fresh {}).run twoKept = some (answers, r) ∧
      { r with machine := {} }.trigger ⟨['/'], 16⟩ 7 = some ([.delayed 5, .filtered], r') ∧
      r'.machine.mockTime.toNat = ({} : Machine).mockTime.toNat + 1000 ∧
      r'.list = [⟨⟨['/'], ['f']⟩, 16, 5, some 3, 1, 5⟩, ⟨⟨['/'], ['h']⟩, 16, 9, some 4, 0, 0⟩] ∧
      r'.panel.totalHits = 1 ∧ r'.panel.totalDelay = 5 := by
  have hrun : ((fresh {}).run twoKept).map (fun p =>
        let s : Registry := { p.2 with machine := {} }
        ((s.list.filter fun i => decide (i.probe = ⟨['/'], 16⟩)).map (s.tells 7),
          s.list.map fun i => if i.probe = ⟨['/'], 16⟩ then i.heard (s.tells 7 i) else i,
          s.panel.totalHits, s.panel.totalDelay)) =
      some ([.delayed 5, .filtered],
        [⟨⟨['/'], ['f']⟩, 16, 5, some 3, 1, 5⟩, ⟨⟨['/'], ['h']⟩, 16, 9, some 4, 0, 0⟩], 0, 0) ∧
      (fresh {}).armings twoKept < 2 ^ 64 - 1 := by decide +kernel
  obtain ⟨⟨answers, r⟩, hr, he⟩ := Option.map_eq_some_iff.1 hrun.1
  simp only [Prod.mk.injEq] at he
  obtain ⟨hvs, hheard, hhits, hdelays⟩ := he
  have h := trigger_eq_heard (m := {}) (p := {}) .standard hr hrun.2 rfl ⟨['/'], 16⟩ 7 (by rw [hvs]; decide)
  rw [hvs, hheard, hhits, hdelays] at h
  obtain ⟨hpass, -, htime, hlist, ⟨htotal, hlong⟩, -⟩ := h
  exact ⟨answers, r, _, hr, hpass, htime, hlist, htotal, hlong⟩

end Registry
end DelayProbe
