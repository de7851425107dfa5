import DelayProbe.Proofs.Passing
import DelayProbe.Proofs.Tally
import Mathlib.Data.UInt
/-!
# Exchange — the order in which processes pass makes no difference

What a probe tells depends on nothing that a passage changes (`Registry.verdictAt`): a process is told the same whoever passed
before.  What a passage does change are counts and the time, and those are only added to, so two hits can be exchanged
(`Ledger.charge_right_comm`).  Processes that pass in another order, on whatever processors, are told the same and leave the
same behind (`Registry.run_exchange`).
-/
namespace DelayProbe

/-! ## Hits written down -/

/-- What passages change of a registry, as far as it shows: the targets, the totals and the time. -/
structure Ledger where
  slots : List Slot
  hits : UInt64
  delays : UInt64
  time : UInt64

/-- The number of a probe that was hit, and the delay. -/
abbrev Charge := UInt64 × UInt64

/-- How long hits make a process stand still on the mock clock. -/
def lasting (hits : List Charge) : Nat := (hits.map fun x => Machine.span x.2).sum

theorem lasting_append (a b : List Charge) : lasting (a ++ b) = lasting a + lasting b := by
  unfold lasting
  rw [List.map_append, List.sum_append]

def Ledger.charge (b : Ledger) (x : Charge) : Ledger where
  slots := Registry.modifyFirst (fun s => decide (s.handle = x.1))
    (fun t => { t with hits := t.hits + 1, delays := t.delays + x.2 }) b.slots
  hits := b.hits + 1
  delays := b.delays + x.2
  time := b.time + UInt64.ofNat (Machine.span x.2)

/-- Two changes of slots can be exchanged if neither undoes what the other looks for. -/
theorem Registry.modifyFirst_comm {p q : Slot → Bool} {f g : Target → Target} (hp : ∀ s t, p { s with target := t } = p s)
    (hq : ∀ s t, q { s with target := t } = q s) (h : ∀ t, f (g t) = g (f t)) : ∀ ss : List Slot,
    modifyFirst p f (modifyFirst q g ss) = modifyFirst q g (modifyFirst p f ss)
  | [] => rfl
  | s :: ss => by
    have ih := modifyFirst_comm hp hq h ss
    cases hps : p s <;> cases hqs : q s <;> simp [modifyFirst, hp, hq, hps, hqs, h, ih]

/-- **Two hits can be exchanged.** -/
theorem Ledger.charge_right_comm (b : Ledger) (x y : Charge) : (b.charge x).charge y = (b.charge y).charge x := by
  have hslots : (b.charge x |>.charge y).slots = (b.charge y |>.charge x).slots :=
    Registry.modifyFirst_comm (fun _ _ => rfl) (fun _ _ => rfl)
      (fun t => by simp only [UInt64.add_assoc, UInt64.add_comm x.2 y.2]) b.slots
  rw [Ledger.mk.injEq]
  exact ⟨hslots, rfl, add_right_comm _ _ _, add_right_comm _ _ _⟩

instance : RightCommutative Ledger.charge := ⟨Ledger.charge_right_comm⟩

theorem Ledger.time_charges (hits : List Charge) (b : Ledger) :
    (hits.foldl charge b).time = b.time + UInt64.ofNat (lasting hits) := by
  induction hits generalizing b with
  | nil => exact (UInt64.add_zero _).symm
  | cons x hits ih =>
    have hsum : lasting (x :: hits) = Machine.span x.2 + lasting hits := rfl
    rw [List.foldl_cons, ih, hsum, UInt64.ofNat_add, ← UInt64.add_assoc]
    rfl

/-! ## Passages among requests -/

/-- Whether a request lets a process pass, or sets the processor that passages run on. -/
def Op.Moves : Op → Prop
  | .trigger _ _ | .setCpu _ => True
  | _ => False

/-- The passages among requests: where, and by which process. -/
def passages (ops : List Op) : List (Probe × UInt32) :=
  ops.filterMap fun
    | .trigger probe pid => some (probe, pid)
    | _ => none

theorem passages_cons (op : Op) (ops : List Op) : passages (op :: ops) = passages [op] ++ passages ops :=
  List.filterMap_append (l := [op])

namespace Registry

variable {r r' : Registry} {pid : UInt32}

def ledger (r : Registry) : Ledger := ⟨r.slots, r.panel.totalHits, r.panel.totalDelay, r.machine.mockTime⟩

/-! ## What is told -/

/-- What a hit on a probe is told. -/
def verdictAt (r : Registry) (pid : UInt32) (handle : UInt64) : Verdict :=
  match r.slots.find? fun s => decide (s.handle = handle) with
  | none => if r.panel.enabled then .detached else .disabled
  | some s => s.target.verdict r.panel.enabled r.backend.descends pid

/-- What a process is told that passes a place: every probe there answers for itself. -/
def foretold (r : Registry) (probe : Probe) (pid : UInt32) : List Verdict :=
  (r.backend.armedAt probe).map (r.verdictAt pid)

/-- The hits among probes that delay a process. -/
def charges (r : Registry) (pid : UInt32) (handles : List UInt64) : List Charge :=
  handles.filterMap fun h => (r.verdictAt pid h).delay?.map (h, ·)

theorem charges_cons (r : Registry) (pid : UInt32) (h : UInt64) (hs : List UInt64) :
    r.charges pid (h :: hs) = r.charges pid [h] ++ r.charges pid hs :=
  List.filterMap_append (l := [h])

/-- A process stands still for as long as the hits last that delay it. -/
theorem standing_verdicts (r : Registry) (pid : UInt32) (handles : List UInt64) :
    standing (handles.map (r.verdictAt pid)) = lasting (r.charges pid handles) := by
  unfold standing lasting delaysIn charges
  rw [List.filterMap_map, List.map_filterMap, List.map_filterMap]
  refine congrArg List.sum (List.filterMap_congr fun h _ => ?_)
  cases hd : (r.verdictAt pid h).delay? <;> simp [hd]

/-! ## One passage -/

/-- `r'` is what passages leave behind of `r` that hit so. -/
structure Passed (r r' : Registry) (hits : List Charge) : Prop where
  clock : r'.machine.clock = r.machine.clock
  enabled : r'.panel.enabled = r.panel.enabled
  backend : r'.backend = r.backend
  verdictAt : ∀ pid handle, r'.verdictAt pid handle = r.verdictAt pid handle
  ledger : r'.ledger = hits.foldl Ledger.charge r.ledger

namespace Passed

variable {r'' : Registry} {hits hits' : List Charge}

theorem refl (r : Registry) : Passed r r [] := ⟨rfl, rfl, rfl, fun _ _ => rfl, rfl⟩

theorem trans (h : Passed r r' hits) (h' : Passed r' r'' hits') : Passed r r'' (hits ++ hits') where
  clock := h'.clock.trans h.clock
  enabled := h'.enabled.trans h.enabled
  backend := h'.backend.trans h.backend
  verdictAt pid handle := (h'.verdictAt pid handle).trans (h.verdictAt pid handle)
  ledger := by rw [h'.ledger, h.ledger, List.foldl_append]

theorem toNat_mockTime (h : Passed r r' hits) (hround : r.machine.mockTime.toNat + lasting hits < 2 ^ 64) :
    r'.machine.mockTime.toNat = r.machine.mockTime.toNat + lasting hits := by
  have htime : r'.machine.mockTime = (r.machine.idle (lasting hits)).mockTime :=
    (congrArg Ledger.time h.ledger).trans (Ledger.time_charges hits r.ledger)
  rw [htime, Machine.toNat_idle hround]

theorem charges_eq (h : Passed r r' hits) (pid : UInt32) (handles : List UInt64) :
    r'.charges pid handles = r.charges pid handles := by
  unfold charges
  simp only [h.verdictAt]

theorem foretold_eq (h : Passed r r' hits) (probe : Probe) (pid : UInt32) : r'.foretold probe pid = r.foretold probe pid := by
  unfold foretold
  rw [h.backend]
  exact List.map_congr_left fun handle _ => h.verdictAt pid handle

end Passed

/-- No probe decides by what is counted. -/
theorem verdictAt_resetStats (r : Registry) (pid : UInt32) (handle : UInt64) :
    r.resetStats.verdictAt pid handle = r.verdictAt pid handle := by
  unfold verdictAt resetStats
  simp only [List.find?_map, Function.comp_def]
  cases r.slots.find? fun s => decide (s.handle = handle) <;> rfl

theorem verdictAt_congr (hs : r'.resetStats.slots = r.resetStats.slots) (he : r'.panel.enabled = r.panel.enabled)
    (hb : r'.backend = r.backend) (pid : UInt32) (handle : UInt64) : r'.verdictAt pid handle = r.verdictAt pid handle := by
  have he' : r'.resetStats.panel.enabled = r.resetStats.panel.enabled := he
  have hb' : r'.resetStats.backend = r.resetStats.backend := hb
  rw [← verdictAt_resetStats r', ← verdictAt_resetStats r, verdictAt, hs, he', hb']
  rfl

/-- **A hit on a probe is told what the probe has for the process**, and is written down if it delays it. -/
theorem hit_passed (hclock : r.machine.clock = none) (pid : UInt32) (handle : UInt64)
    (hround : r.machine.mockTime.toNat + lasting (r.charges pid [handle]) < 2 ^ 64) :
    ∃ r', r.hit handle pid = some (r.verdictAt pid handle, r') ∧ Passed r r' (r.charges pid [handle]) := by
  cases hs : r.slots.find? fun s => decide (s.handle = handle) with
  | none =>
    have hv : r.verdictAt pid handle = if r.panel.enabled then .detached else .disabled := by rw [verdictAt, hs]
    have hcharges : r.charges pid [handle] = [] := by
      cases he : r.panel.enabled <;> simp [charges, hv, he, Verdict.delay?]
    rw [hcharges, hit_unlisted hs, hv]
    exact ⟨r, rfl, .refl r⟩
  | some s =>
    have hv : r.verdictAt pid handle = s.target.verdict r.panel.enabled r.backend.descends pid := by rw [verdictAt, hs]
    unfold hit
    rw [hs]
    simp only [Target.fire, ← hv]
    cases hd : r.verdictAt pid handle with
    | delayed d =>
      have hcharges : r.charges pid [handle] = [(handle, d)] := by simp [charges, hd, Verdict.delay?]
      have hone : lasting [(handle, d)] = Machine.span d := Nat.add_zero _
      rw [hcharges, hone] at hround
      have hslots : modifyFirst (fun s => decide (s.handle = handle)) (fun _ => s.target.recordHit d) r.slots =
          modifyFirst (fun s => decide (s.handle = handle)) (·.recordHit d) r.slots := modifyFirst_congr hs rfl
      simp only [Machine.wait_eq_idle hclock hround, Option.map_some, hcharges, hslots]
      refine ⟨_, rfl, rfl, rfl, rfl, verdictAt_congr ?_ rfl rfl, ?_⟩
      · exact map_modifyFirst _ _ _ _ fun _ _ => rfl
      · simp only [ledger, Panel.totalHits, Panel.totalDelay, Panel.recordHit, Counter.sum_addOn]
        rfl
    | disabled | detached | filtered =>
      have hcharges : r.charges pid [handle] = [] := by simp [charges, hd, Verdict.delay?]
      simp only [Option.map_some, modifyFirst_self hs, hcharges]
      exact ⟨r, rfl, .refl r⟩

theorem hitAll_passed (pid : UInt32) : ∀ (handles : List UInt64) {r : Registry}, r.machine.clock = none →
    r.machine.mockTime.toNat + lasting (r.charges pid handles) < 2 ^ 64 →
      ∃ r', hitAll pid handles r = some (handles.map (r.verdictAt pid), r') ∧ Passed r r' (r.charges pid handles)
  | [], r, _, _ => ⟨r, rfl, .refl r⟩
  | h :: hs, r, hclock, hround => by
    rw [charges_cons, lasting_append] at hround
    obtain ⟨r₁, hhit, hp₁⟩ := hit_passed hclock pid h (by omega)
    have hround₁ : r₁.machine.mockTime.toNat + lasting (r₁.charges pid hs) < 2 ^ 64 := by
      rw [hp₁.charges_eq, hp₁.toNat_mockTime (by omega)]
      omega
    obtain ⟨r₂, hrest, hp₂⟩ := hitAll_passed pid hs (hp₁.clock.trans hclock) hround₁
    rw [hp₁.charges_eq] at hp₂
    refine ⟨r₂, hitAll_cons_eq_some_iff.2 ⟨_, r₁, _, hhit, hrest, ?_⟩, charges_cons r pid h hs ▸ hp₁.trans hp₂⟩
    rw [List.map_cons]
    exact congrArg _ (List.map_congr_left fun handle _ => (hp₁.verdictAt pid handle).symm)

/-! ## Passages one after the other -/

/-- What a request is answered, if it is one of those that passages consist of. -/
def answerTo (r : Registry) : Op → Answer
  | .trigger probe pid => .ok (.verdicts (r.foretold probe pid))
  | _ => .ok .done

/-- The hits of a passage. -/
def chargesOf (r : Registry) (v : Probe × UInt32) : List Charge := r.charges v.2 (r.backend.armedAt v.1)

theorem Passed.chargesOf_eq {hits : List Charge} (h : Passed r r' hits) : r'.chargesOf = r.chargesOf := by
  funext v
  rw [chargesOf, h.charges_eq, h.backend, chargesOf]

theorem Passed.answerTo_eq {hits : List Charge} (h : Passed r r' hits) : r'.answerTo = r.answerTo := by
  funext op
  cases op with
  | trigger probe pid => rw [answerTo, h.foretold_eq, answerTo]
  | _ => rfl

theorem lasting_chargesOf (r : Registry) (v : Probe × UInt32) : lasting (r.chargesOf v) = standing (r.foretold v.1 v.2) :=
  (standing_verdicts r v.2 _).symm

theorem setCpu_passed (r : Registry) (id : UInt32) : Passed r { r with machine := r.machine.setMockCpu id } [] :=
  ⟨rfl, rfl, rfl, fun _ _ => rfl, rfl⟩

/-- **A request is answered as foretold**, and leaves its hits behind. -/
theorem step_passed (hclock : r.machine.clock = none) {op : Op} (hop : op.Moves)
    (hround : r.machine.mockTime.toNat + lasting ((passages [op]).flatMap r.chargesOf) < 2 ^ 64) :
    ∃ o, r.step op = some o ∧ o.reply = r.answerTo op ∧ Passed r o.after ((passages [op]).flatMap r.chargesOf) := by
  cases op with
  | trigger probe pid =>
    have hone : (passages [.trigger probe pid]).flatMap r.chargesOf = r.charges pid (r.backend.armedAt probe) :=
      List.append_nil _
    rw [hone] at hround ⊢
    obtain ⟨r', hall, hp⟩ := hitAll_passed pid _ hclock hround
    refine ⟨⟨.ok (.verdicts (r.foretold probe pid)), r', []⟩, ?_, rfl, hp⟩
    rw [step, trigger, hall]
    rfl
  | setCpu id => exact ⟨_, rfl, rfl, setCpu_passed r id⟩
  | _ => exact absurd hop id

/-- **Requests are answered one after the other as they would be answered alone, now**, and leave their hits behind. -/
theorem run_passed : ∀ (ops : List Op) {r : Registry}, r.machine.clock = none → (∀ op ∈ ops, op.Moves) →
    r.machine.mockTime.toNat + lasting ((passages ops).flatMap r.chargesOf) < 2 ^ 64 →
      ∃ r', r.run ops = some (ops.map r.answerTo, r') ∧ Passed r r' ((passages ops).flatMap r.chargesOf)
  | [], r, _, _, _ => ⟨r, rfl, .refl r⟩
  | op :: ops, r, hclock, hops, hround => by
    rw [passages_cons, List.flatMap_append, lasting_append] at hround
    obtain ⟨o, ho, hreply, hp⟩ := step_passed hclock (hops op List.mem_cons_self) (by omega)
    have hround' : o.after.machine.mockTime.toNat + lasting ((passages ops).flatMap o.after.chargesOf) < 2 ^ 64 := by
      rw [hp.chargesOf_eq, hp.toNat_mockTime (by omega)]
      omega
    -- the rest is answered and charged after the first request as it would be before it
    obtain ⟨r', hrest, hp'⟩ :=
      run_passed ops (hp.clock.trans hclock) (fun op hop => hops op (List.mem_cons_of_mem _ hop)) hround'
    rw [hp.chargesOf_eq] at hp'
    rw [passages_cons, List.flatMap_append]
    refine ⟨r', run_cons_eq_some_iff.2 ⟨o, _, ho, hrest, ?_⟩, hp.trans hp'⟩
    rw [hreply, hp.answerTo_eq, List.map_cons]

theorem lasting_flatMap (r : Registry) (vs : List (Probe × UInt32)) :
    lasting (vs.flatMap r.chargesOf) = (vs.map fun v => standing (r.foretold v.1 v.2)).sum := by
  induction vs with
  | nil => rfl
  | cons v vs ih =>
    rw [List.flatMap_cons, lasting_append, ih, lasting_chargesOf, List.map_cons, List.sum_cons]

/-- **The order in which processes pass makes no difference.**  Two sequences of requests let the same processes pass the same
places, in any order and on whatever processors.  Both come back, every request is answered in both as it would be if it were
the only one, and both end with the same list, the same statistics and the same time on the mock clock.  This holds in whatever
state a registry is, if no clock is installed and the mock clock, which moves on by what all the delays take, does not come
round. -/
theorem run_exchange (hclock : r.machine.clock = none) {ops ops' : List Op} (hops : ∀ op ∈ ops, op.Moves)
    (hops' : ∀ op ∈ ops', op.Moves) (hperm : (passages ops).Perm (passages ops'))
    (hround : r.machine.mockTime.toNat + ((passages ops).map fun v => standing (r.foretold v.1 v.2)).sum < 2 ^ 64) :
    ∃ r₁ r₂, r.run ops = some (ops.map r.answerTo, r₁) ∧ r.run ops' = some (ops'.map r.answerTo, r₂) ∧
      r₁.list = r₂.list ∧ r₁.stats = r₂.stats ∧ r₁.machine.mockTime = r₂.machine.mockTime ∧
      r₁.machine.mockTime.toNat =
        r.machine.mockTime.toNat + ((passages ops).map fun v => standing (r.foretold v.1 v.2)).sum := by
  have hsum := (hperm.map fun v => standing (r.foretold v.1 v.2)).sum_nat
  rw [← lasting_flatMap, ← lasting_flatMap] at hsum
  rw [← lasting_flatMap] at hround ⊢
  obtain ⟨r₁, hrun₁, h₁⟩ := run_passed ops hclock hops hround
  obtain ⟨r₂, hrun₂, h₂⟩ := run_passed ops' hclock hops' (by rwa [← hsum])
  have hledger : r₁.ledger = r₂.ledger := by
    rw [h₁.ledger, h₂.ledger]
    exact (hperm.flatMap_right r.chargesOf).foldl_eq r.ledger
  have hslots : r₁.slots = r₂.slots := congrArg Ledger.slots hledger
  refine ⟨r₁, r₂, hrun₁, hrun₂, ?_, ?_, congrArg Ledger.time hledger, h₁.toNat_mockTime hround⟩
  · rw [list, hslots, list]
  · unfold stats
    rw [Stats.mk.injEq]
    exact ⟨h₁.enabled.trans h₂.enabled.symm, congrArg List.length hslots, congrArg Ledger.hits hledger,
      congrArg Ledger.delays hledger⟩

/-- A file, a target in it kept for process 3, and a child of that process. -/
def oneKept : List Op :=
  [.insertFile ['/'] (Blueprint.small.image .little), .perform (.add ⟨['/'], ['f']⟩ 5 (some 3)), .setParent 7 3,
    .setEnabled true]

/-- Three processes pass the target that is kept for process 3. -/
def threePassed : List Op := [.trigger ⟨['/'], 16⟩ 7, .setCpu 3, .trigger ⟨['/'], 16⟩ 2, .trigger ⟨['/'], 16⟩ 3]

/-- They pass in another order, on another processor. -/
def threePassedLater : List Op := [.setCpu 9, .trigger ⟨['/'], 16⟩ 3, .trigger ⟨['/'], 16⟩ 7, .trigger ⟨['/'], 16⟩ 2]

theorem run_exchange_oneKept :
    ∃ answers r r₁ r₂, (fresh {}).run oneKept = some (answers, r) ∧
      r.run threePassed =
        some ([.ok (.verdicts [.delayed 5]), .ok .done, .ok (.verdicts [.filtered]), .ok (.verdicts [.delayed 5])], r₁) ∧
      r.run threePassedLater =
        some ([.ok .done, .ok (.verdicts [.delayed 5]), .ok (.verdicts [.delayed 5]), .ok (.verdicts [.filtered])], r₂) ∧
      r₁.list = r₂.list ∧ r₁.stats = r₂.stats ∧ r₁.machine.mockTime = r₂.machine.mockTime ∧
      r₁.machine.mockTime.toNat = 1000000000 + 2000 := by
  have hrun : ((fresh {}).run oneKept).map (fun p => (p.2.machine, [7, 2, 3].map (p.2.foretold ⟨['/'], 16⟩))) =
      some ({}, [[.delayed 5], [.filtered], [.delayed 5]]) := by decide +kernel
  obtain ⟨⟨answers, r⟩, hr, he⟩ := Option.map_eq_some_iff.1 hrun
  obtain ⟨hm, htold⟩ := Prod.mk.inj he
  simp only [List.map_cons, List.map_nil, List.cons.injEq, and_true] at hm htold
  obtain ⟨h7, h2, h3⟩ := htold
  have hclock : r.machine.clock = none := by rw [hm]
  have hmoves : ∀ op ∈ threePassed, op.Moves := by simp [threePassed, Op.Moves]
  have hmoves' : ∀ op ∈ threePassedLater, op.Moves := by simp [threePassedLater, Op.Moves]
  have hsum : ((passages threePassed).map fun v => standing (r.foretold v.1 v.2)).sum = 2000 := by
    simp only [passages, threePassed, List.filterMap_cons, List.filterMap_nil, List.map_cons, List.map_nil, h7, h2, h3]
    decide
  obtain ⟨r₁, r₂, hrun₁, hrun₂, hlist, hstats, htime, hlast⟩ :=
    run_exchange hclock hmoves hmoves' (by decide) (by rw [hsum, hm]; decide)
  refine ⟨answers, r, r₁, r₂, hr, ?_, ?_, hlist, hstats, htime, ?_⟩
  · rw [hrun₁]
    simp only [threePassed, List.map_cons, List.map_nil, answerTo, h7, h2, h3]
  · rw [hrun₂]
    simp only [threePassedLater, List.map_cons, List.map_nil, answerTo, h7, h2, h3]
  · rw [hlast, hsum, hm]
    rfl

end Registry
end DelayProbe
