import DelayProbe.Proofs.Refused
import DelayProbe.Proofs.Replay
/-!
# Objection — which refusal an addition gets

An addition is looked at in six stages, and `Registry.objection` says what each has against it, whether or not an earlier one
has something too.  The first objection is the answer (`Registry.add_first_objection`), for a registry never lists more
targets than it may (`Registry.Roomy`).  The last stage objects with the fault that was prepared last, for as long as no
addition has come to that stage since (`foldl_leavesFault_eq_some_iff`).
-/
namespace DelayProbe

/-- What is looked at in turn before a target is listed. -/
inductive Stage where
  | delay
  | name
  | room
  | file
  | symbol
  | arming
  deriving DecidableEq, Repr

namespace Stage

/-- The stages that look at the registry alone. -/
def checks : List Stage := [.delay, .name, .room]

/-- The stages before the target is handed to the backend. -/
def early : List Stage := checks ++ [.file, .symbol]

def all : List Stage := early ++ [.arming]

end Stage

theorem Refusal.ofUnresolved_eq (u : Unresolved) :
    ofUnresolved u = if u = .notElf ∨ u = .unsupportedClass then .notExecutable u else .resolutionFailed u := by
  cases u <;> simp [ofUnresolved, Unresolved.isFormatError]

/-! ## The prepared fault in a history -/

/-- A call that prepares no fault and comes to no arming. -/
structure Call.SparesFault (c : Call) : Prop where
  prepared?_eq : c.op.prepared? = none
  handedOver_eq : c.handedOver = false

theorem Call.leavesFault_eq_some_iff {c : Call} {prepared : Option Fault} {f : Fault} :
    c.leavesFault prepared = some f ↔ c.op = .failNextArm f ∨ c.SparesFault ∧ prepared = some f := by
  have hop : c.op.prepared? = some f ↔ c.op = .failNextArm f := by cases c.op <;> simp [Op.prepared?]
  rw [leavesFault, Option.or_eq_some_iff, hop]
  refine or_congr_right ?_
  constructor
  · rintro ⟨hnone, hkept⟩
    cases hh : c.handedOver with
    | true => rw [hh] at hkept; cases hkept
    | false => rw [hh] at hkept; exact ⟨⟨hnone, hh⟩, hkept⟩
  · rintro ⟨h, hp⟩
    rw [h.prepared?_eq, h.handedOver_eq]
    exact ⟨rfl, hp⟩

/-- A fault was prepared by one of the calls, and every call since spares it. -/
def PreparedIn (f : Fault) (calls : List Call) : Prop :=
  ∃ past c since, calls = past ++ c :: since ∧ c.op = .failNextArm f ∧ ∀ d ∈ since, d.SparesFault

theorem preparedIn_cons_iff {f : Fault} {c : Call} {calls : List Call} :
    PreparedIn f (c :: calls) ↔ (c.op = .failNextArm f ∧ ∀ d ∈ calls, d.SparesFault) ∨ PreparedIn f calls := by
  constructor
  · rintro ⟨past, d, since, hsplit, hd, hsince⟩
    rcases List.cons_eq_append_iff.1 hsplit with ⟨-, hs⟩ | ⟨past, -, rfl⟩
    · cases hs
      exact .inl ⟨hd, hsince⟩
    · exact .inr ⟨past, d, since, rfl, hd, hsince⟩
  · rintro (⟨hc, hcalls⟩ | ⟨past, d, since, rfl, hd, hsince⟩)
    · exact ⟨[], c, calls, rfl, hc, hcalls⟩
    · exact ⟨c :: past, d, since, rfl, hd, hsince⟩

/-- **After some calls the fault is prepared that one of them prepared, or the one from before, and that every call since
spares.** -/
theorem foldl_leavesFault_eq_some_iff {f : Fault} : ∀ {calls : List Call} {prepared : Option Fault},
    calls.foldl Call.leavesFault prepared = some f ↔
      PreparedIn f calls ∨ (∀ d ∈ calls, d.SparesFault) ∧ prepared = some f
  | [], prepared => by simp [PreparedIn]
  | c :: calls, prepared => by
    rw [List.foldl_cons, foldl_leavesFault_eq_some_iff, Call.leavesFault_eq_some_iff, preparedIn_cons_iff, List.forall_mem_cons]
    tauto

namespace Registry

variable {r : Registry} {prepared : Option Fault} {key : Key} {delay : UInt64}

/-! ## The stages of an addition -/

/-- What a stage has against an addition, whatever the stages before it have, if this fault is prepared. -/
def objection (r : Registry) (prepared : Option Fault) (key : Key) (delay : UInt64) : Stage → Option Refusal
  | .delay => if r.limits.longestDelay < delay then some .outOfRange else none
  | .name => if key ∈ r.slots.map (·.target.key) then some .alreadyExists else none
  | .room => if r.slots.length = r.limits.targets then some .capacityExceeded else none
  | .file => if r.backend.file? key.path = none then some (.attachFailed (.kind .notFound)) else none
  | .symbol =>
    (r.backend.file? key.path).bind fun im =>
      match im.resolve key.symbol with
      | .ok _ => none
      | .error u => some (if u = .notElf ∨ u = .unsupportedClass then .notExecutable u else .resolutionFailed u)
  | .arming => prepared.map .attachFailed

theorem findSome?_all :
    Stage.all.findSome? (r.objection prepared key delay) =
      (Stage.early.findSome? (r.objection prepared key delay)).or (prepared.map .attachFailed) := by
  rw [Stage.all, List.findSome?_append, List.findSome?_cons]
  cases prepared <;> rfl

theorem slot?_isSome_iff : (r.slot? key).isSome = true ↔ key ∈ r.slots.map (·.target.key) := by
  unfold slot?
  rw [List.find?_isSome, List.mem_map]
  simp

/-- In a registry with no more targets than it may have, there is no room exactly if it has as many. -/
theorem checkInsertable_eq (hroom : r.Roomy) :
    r.checkInsertable key =
      if key ∈ r.slots.map (·.target.key) then .error .alreadyExists
      else if r.slots.length = r.limits.targets then .error .capacityExceeded
      else .ok () := by
  have hfull : r.limits.targets ≤ r.slots.length ↔ r.slots.length = r.limits.targets :=
    ⟨fun h => Nat.le_antisymm hroom h, fun h => Nat.le_of_eq h.symm⟩
  unfold checkInsertable
  simp only [slot?_isSome_iff, hfull]

theorem checkAdd_eq (hroom : r.Roomy) (prepared : Option Fault) (key : Key) (delay : UInt64) :
    r.checkAdd key delay = (Stage.checks.findSome? (r.objection prepared key delay)).elim (.ok ()) .error := by
  unfold checkAdd Limits.checkDelay Stage.checks
  rw [checkInsertable_eq hroom]
  by_cases hdelay : r.limits.longestDelay < delay
  · simp [objection, hdelay]
  · by_cases hname : key ∈ r.slots.map (·.target.key)
    · simp only [objection, hdelay, hname, List.findSome?_cons, if_true, if_false, Option.elim_some]
    · by_cases hfull : r.slots.length = r.limits.targets
      · simp only [objection, hdelay, hname, hfull, List.findSome?_cons, if_true, if_false, Option.elim_some]
      · simp only [objection, hdelay, hname, hfull, List.findSome?_cons, List.findSome?_nil, if_false, Option.elim_none]

/-- **An addition to which a stage before the last objects is refused with the first objection and changes nothing.** -/
theorem add_of_early_objection (hroom : r.Roomy) {e : Refusal}
    (he : Stage.early.findSome? (r.objection prepared key delay) = some e) (pid : Option UInt32) :
    (r.add key delay pid).reply = .error e ∧ (r.add key delay pid).after = r ∧ Event.Quiet (r.add key delay pid).events := by
  have hcheck := checkAdd_eq hroom prepared key delay
  rw [Stage.early, List.findSome?_append] at he
  cases hc : Stage.checks.findSome? (r.objection prepared key delay) with
  | some e' =>
    rw [hc] at he hcheck
    cases he
    rw [add_of_checkAdd hcheck]
    exact ⟨rfl, rfl, rfl, rfl⟩
  | none =>
    rw [hc] at he hcheck
    cases hf : r.backend.file? key.path with
    | none =>
      simp only [objection, hf, List.findSome?_cons, if_true, Option.none_or] at he
      cases he
      rw [add_of_no_file hcheck hf]
      exact ⟨rfl, rfl, rfl, rfl⟩
    | some im =>
      cases hu : im.resolve key.symbol with
      | ok p => simp [objection, hf, hu] at he
      | error u =>
        simp only [objection, hf, hu, List.findSome?_cons, reduceCtorEq, if_false, Option.bind_some, Option.none_or,
          ← Refusal.ofUnresolved_eq] at he
        cases he
        rw [add_of_unresolved hcheck hf hu]
        exact ⟨rfl, rfl, (placeIn_quiet key im).armings_eq, (placeIn_quiet key im).handsOver_eq⟩

/-- **An addition to which no stage before the last objects comes to arming its target.** -/
theorem add_of_no_early_objection (hroom : r.Roomy) (he : Stage.early.findSome? (r.objection prepared key delay) = none)
    (pid : Option UInt32) : ∃ t, r.Arms t (r.add key delay pid) := by
  have hcheck := checkAdd_eq hroom prepared key delay
  rw [Stage.early, List.findSome?_append, Option.or_eq_none_iff] at he
  rw [he.1] at hcheck
  have hlater := he.2
  cases hf : r.backend.file? key.path with
  | none => simp [objection, hf] at hlater
  | some im =>
    cases hp : im.resolve key.symbol with
    | error u => simp [objection, hf, hp] at hlater
    | ok p => exact ⟨_, add_arms hcheck hf hp pid⟩

/-- **The answer to an addition is the first objection to it.** -/
theorem add_reply (hroom : r.Roomy) (key : Key) (delay : UInt64) (pid : Option UInt32) :
    (r.add key delay pid).reply =
      (Stage.all.findSome? (r.objection r.backend.failNext key delay)).elim (.ok ()) .error := by
  rw [findSome?_all]
  cases he : Stage.early.findSome? (r.objection r.backend.failNext key delay) with
  | some e => exact (add_of_early_objection hroom he pid).1
  | none =>
    obtain ⟨t, -, ⟨f, hf, hreply, -, -⟩ | ⟨hf, hreply, -, -⟩⟩ := add_of_no_early_objection hroom he pid
    · rw [hreply, hf]
      rfl
    · rw [hreply, hf]
      rfl

/-- **The prepared fault is left alone by an addition to which an early stage objects, and used up by any other.** -/
theorem add_failNext (hroom : r.Roomy) (key : Key) (delay : UInt64) (pid : Option UInt32) :
    (r.add key delay pid).after.backend.failNext =
      if Stage.early.findSome? (r.objection prepared key delay) = none then none else r.backend.failNext := by
  cases he : Stage.early.findSome? (r.objection prepared key delay) with
  | some e => rw [(add_of_early_objection hroom he pid).2.1, if_neg (by simp)]
  | none =>
    rw [if_pos rfl]
    obtain ⟨t, -, ⟨f, -, -, hafter, -⟩ | ⟨hf, -, hafter, -⟩⟩ := add_of_no_early_objection hroom he pid
    · rw [hafter]
      rfl
    · rw [hafter]
      exact hf

/-- **What comes to the backend is an addition to which no earlier stage objects.** -/
theorem step_handsOver_iff (hroom : r.Roomy) {op : Op} {o : Outcome Answer} (ho : r.step op = some o) :
    Event.handsOver o.events = true ↔
      ∃ key delay pid, op.order? r.limits r.panel.defaultDelay = some (.add key delay pid) ∧
        Stage.early.findSome? (r.objection prepared key delay) = none := by
  constructor
  · intro hh
    obtain ⟨key, delay, pid, t, hord, harm, -⟩ := step_handsOver ho hh
    refine ⟨key, delay, pid, hord, Option.eq_none_iff_forall_not_mem.2 fun e he => ?_⟩
    exact absurd ((add_of_early_objection hroom he pid).2.2.handsOver_eq.symm.trans harm.1) Bool.false_ne_true
  · rintro ⟨key, delay, pid, hord, he⟩
    obtain ⟨t, harm⟩ := add_of_no_early_objection hroom he pid
    rw [((step_order hord ho).trans (Outcome.alike_map (fun _ => 1) _)).handsOver_eq]
    exact harm.1

/-! ## Runs -/

/-- **After a run a registry has no more targets than it may have, and the fault prepared that its history leaves.** -/
theorem run_failNext {ops : List Op} {answers : List Answer} {r' : Registry} (hd : r.Distinct) (hroom : r.Roomy)
    (hrun : r.run ops = some (answers, r')) :
    r'.Roomy ∧ r'.backend.failNext = (r.calls ops).foldl Call.leavesFault r.backend.failNext :=
  (run_foldl (R := fun r f => r.Distinct ∧ r.Roomy ∧ r.backend.failNext = f)
    (fun h ho => ⟨step_distinct h.1 ho, step_roomy h.1 h.2.1 ho, h.2.2 ▸ step_failNext ho⟩) ops ⟨hd, hroom, rfl⟩ hrun).2

/-- **An addition is answered with the first of the objections to it, in the order of the stages, and granted if there is
none.**  It uses up the prepared fault if it comes as far as the backend, and leaves it alone if it does not.  In whatever way
it is asked for, a target is handed to the backend exactly if no stage before objects.  The prepared fault is the one that was
prepared last, if since then nothing was handed over. -/
theorem add_first_objection {l : Limits} {r₀ : Registry} {m : Machine} {ops : List Op} {answers : List Answer} (hnew : New l r₀)
    (hrun : { r₀ with machine := m }.run ops = some (answers, r)) :
    let history := { r₀ with machine := m }.calls ops
    let prepared := history.foldl Call.leavesFault none
    (∀ key delay pid,
        let o := r.add key delay pid
        o.reply = (Stage.all.findSome? (r.objection prepared key delay)).elim (.ok ()) .error ∧
          o.after.backend.failNext =
            if Stage.early.findSome? (r.objection prepared key delay) = none then none else prepared) ∧
      (∀ op o, r.step op = some o →
        (Event.handsOver o.events = true ↔
          ∃ key delay pid, op.order? r.limits r.panel.defaultDelay = some (.add key delay pid) ∧
            Stage.early.findSome? (r.objection prepared key delay) = none)) ∧
      ∀ f, prepared = some f ↔ PreparedIn f history := by
  intro history prepared
  have hd := hnew.distinct m
  obtain rfl := hnew.eq_fresh
  obtain ⟨hroom, hfault⟩ : r.Roomy ∧ r.backend.failNext = prepared := run_failNext hd (Nat.zero_le _) hrun
  refine ⟨fun key delay pid => ⟨?_, ?_⟩, fun op o ho => step_handsOver_iff hroom ho, fun f => ?_⟩
  · rw [← hfault]
    exact add_reply hroom key delay pid
  · rw [← hfault]
    exact add_failNext hroom key delay pid
  · rw [foldl_leavesFault_eq_some_iff]
    simp

/-- A fault is prepared and then another, and two additions fail before they come to the backend. -/
def twicePrepared : List Op :=
  [.insertFile ['/'] (Blueprint.small.image .little), .failNextArm (.kind .permissionDenied), .failNextArm (.kind .io),
    .perform (.add ⟨['/', 'a'], ['f']⟩ 5 none), .write Endpoint.targets.name "+/:g".toList]

theorem add_first_objection_twicePrepared :
    ∃ answers r, (fresh {}).run twicePrepared = some (answers, r) ∧ PreparedIn (.kind .io) ((fresh {}).calls twicePrepared) ∧
      (r.add ⟨['/'], ['f']⟩ 5 none).reply = .error (.attachFailed (.kind .io)) ∧
      (r.add ⟨['/'], ['f']⟩ 5 none).after.backend.failNext = none ∧
      (r.add ⟨['/'], ['g']⟩ 5 none).reply = .error (.resolutionFailed .symbolNotFound) ∧
      (r.add ⟨['/'], ['g']⟩ 5 none).after.backend.failNext = some (.kind .io) := by
  have hprepared : ((fresh {}).calls twicePrepared).foldl Call.leavesFault none = some (.kind .io) := by decide +kernel
  have hrun : ((fresh {}).run twicePrepared).map (fun p =>
      (Stage.early.findSome? (p.2.objection (some (.kind .io)) ⟨['/'], ['f']⟩ 5),
        Stage.early.findSome? (p.2.objection (some (.kind .io)) ⟨['/'], ['g']⟩ 5))) =
      some (none, some (.resolutionFailed .symbolNotFound)) := by decide +kernel
  obtain ⟨⟨answers, r⟩, hr, hearly⟩ := Option.map_eq_some_iff.1 hrun
  obtain ⟨hf, hg⟩ := Prod.mk.inj hearly
  obtain ⟨hadd, -, hlast⟩ := add_first_objection (m := {}) .standard hr
  have hp := (hlast _).1 hprepared
  have hadd := hprepared ▸ hadd
  obtain ⟨hreply, hafter⟩ := hadd ⟨['/'], ['f']⟩ 5 none
  obtain ⟨hreply', hafter'⟩ := hadd ⟨['/'], ['g']⟩ 5 none
  rw [findSome?_all, hf] at hreply
  rw [findSome?_all, hg] at hreply'
  rw [hf] at hafter
  rw [hg] at hafter'
  exact ⟨answers, r, hr, hp, hreply, hafter, hreply', hafter'⟩

end Registry
end DelayProbe
