import DelayProbe.Proofs.History
import DelayProbe.Proofs.Layout
/-!
# Refused — what a refused request leaves behind

A request that is refused changes nothing at all, wherever on its way it fails.  The one exception is an addition that comes
as far as the backend and meets a prepared fault there: the fault is used up (`Registry.Leaves`, `Registry.step_refused`), and
nothing else uses it up (`Registry.step_failNext`).  So a run may be stripped of refused requests that did not come as far as
the backend (`Call.fruitless`), and answers the rest as before (`Registry.run_filter`).
-/
namespace DelayProbe

/-- Whether a call was refused before a target was handed to the backend. -/
def Call.fruitless (c : Call) : Bool :=
  match c.answer with
  | .ok _ => false
  | .error _ => !c.handedOver

theorem Call.fruitless_iff {c : Call} : c.fruitless = true ↔ c.handedOver = false ∧ ∃ e, c.answer = .error e := by
  unfold fruitless
  cases c.answer <;> simp

/-- The fault that a request prepares. -/
def Op.prepared? : Op → Option Fault
  | .failNextArm f => some f
  | _ => none

/-- The prepared fault after a call, from the one before it: the last one that was prepared, unless a target was handed over
since. -/
def Call.leavesFault (prepared : Option Fault) (c : Call) : Option Fault :=
  c.op.prepared?.or (if c.handedOver then none else prepared)

namespace Registry

/-- What may be left of a registry by a request that was refused: all of it, or, if the request was to add a target and that
was handed to the backend, all of it but the prepared fault. -/
def Leaves (r : Registry) (order : Option Order) (e : Refusal) (handedOver : Bool) (after : Registry) : Prop :=
  handedOver = false ∧ after = r ∨
    handedOver = true ∧ ∃ f key delay pid, order = some (.add key delay pid) ∧ r.backend.failNext = some f ∧
      e = .attachFailed f ∧ after = r.useFault

/-! ## One request -/

variable {r : Registry}

/-- A request that is refused before it does anything. -/
theorem leaves_self (order : Option Order) (e : Refusal) : r.Leaves order e false r := .inl ⟨rfl, rfl⟩

theorem add_refused {key : Key} {delay : UInt64} {pid : Option UInt32} {e : Refusal}
    (he : (r.add key delay pid).reply = .error e) :
    r.Leaves (some (.add key delay pid)) e (Event.handsOver (r.add key delay pid).events) (r.add key delay pid).after := by
  rcases add_cases r key delay pid with ⟨-, ha, -, hh⟩ | ⟨im, p, -, -, -, hh, harm⟩
  · exact .inl ⟨hh, ha⟩
  · rcases harm with ⟨f, hf, hr, ha, -⟩ | ⟨-, hr, -, -⟩
    · rw [hr] at he
      cases he
      exact .inr ⟨hh, f, key, delay, pid, rfl, hf, rfl, ha⟩
    · rw [hr] at he
      cases he

theorem perform_refused {order : Order} {e : Refusal} (he : (r.perform order).reply = .error e) :
    r.Leaves (some order) e (Event.handsOver (r.perform order).events) (r.perform order).after := by
  cases order with
  | add key delay pid => exact add_refused (((Outcome.alike_map (fun _ => 1) (r.add key delay pid)).error_iff e).1 he)
  | remove key =>
    rcases remove_cases r key with ⟨-, ho⟩ | ⟨s, -, hr, -, -⟩
    · rw [perform, ho]
      exact leaves_self _ _
    · rw [perform, (Outcome.alike_map (fun _ => 1) _).error_iff, hr] at he
      cases he
  | removeAll => cases he
  | update key delay pid =>
    rcases update_cases r key delay pid with ⟨e', ho⟩ | ⟨s, -, -, hr, -, -⟩
    · rw [perform, ho]
      exact leaves_self _ _
    · rw [perform, (Outcome.alike_map (fun _ => 1) _).error_iff, hr] at he
      cases he

theorem carryOut_refused {q : Request} {e : Refusal} (he : (r.carryOut q).reply = .error e) :
    r.Leaves (q.order? r.panel.defaultDelay) e (Event.handsOver (r.carryOut q).events) (r.carryOut q).after := by
  cases q with
  | setEnabled on => cases he
  | setDefaultDelay delay =>
    rcases setDefaultDelay_cases r delay with ⟨e', ho⟩ | ⟨-, hr, -, -⟩
    · rw [carryOut, ho]
      exact leaves_self _ _
    · rw [carryOut, hr] at he
      cases he
  | execute c =>
    exact perform_refused (((Outcome.alike_map (fun _ => ()) (r.execute c)).error_iff e).1 he)

/-- What two outcomes alike leave behind is the same. -/
theorem Leaves.of_alike {α : Type} {o : Outcome Answer} {o' : Outcome (Except Refusal α)} {order : Option Order} {e : Refusal}
    (h : o.Alike o') (hl : r.Leaves order e (Event.handsOver o'.events) o'.after) :
    r.Leaves order e (Event.handsOver o.events) o.after := by
  rw [h.handsOver_eq, h.after_eq]
  exact hl

/-- **A refused request changes nothing, or is an addition that the backend refused and used up its prepared fault.** -/
theorem step_refused {op : Op} {o : Outcome Answer} {e : Refusal} (ho : r.step op = some o) (he : o.reply = .error e) :
    r.Leaves (op.order? r.limits r.panel.defaultDelay) e (Event.handsOver o.events) o.after := by
  have requested : ∀ {q : Request}, op.request? r.limits = some q →
      r.Leaves (op.order? r.limits r.panel.defaultDelay) e (Event.handsOver o.events) o.after := fun {q} hq => by
    have h := step_request hq ho
    rw [Op.order?_of_request? hq]
    exact .of_alike h (carryOut_refused ((h.error_iff e).1 he))
  cases op with
  | perform order =>
    have h := step_perform ho
    exact .of_alike h (perform_refused ((h.error_iff e).1 he))
  | execute c => exact requested rfl
  | setDefaultDelay delay => exact requested rfl
  | write name input =>
    rcases step_write ho with ⟨q, hq, -⟩ | ⟨-, e', rfl⟩
    · exact requested hq
    · exact leaves_self _ _
  | read name =>
    cases ho
    exact leaves_self _ _
  | trigger probe pid =>
    obtain ⟨q, -, rfl⟩ := Option.map_eq_some_iff.1 ho
    cases he
  | _ =>
    cases ho
    cases he

/-! ## The prepared fault -/

/-- **An order comes to arming a target, and then it was an addition, or it is quiet and leaves a prepared fault alone.** -/
theorem perform_arms_or_quiet (order : Order) :
    (∃ key delay pid t, order = .add key delay pid ∧ r.Arms t (r.add key delay pid)) ∨
      Event.Quiet (r.perform order).events ∧ (r.perform order).after.backend.failNext = r.backend.failNext := by
  cases order with
  | add key delay pid =>
    rcases add_cases r key delay pid with ⟨-, ha, hq⟩ | ⟨im, p, -, -, -, harm⟩
    · exact .inr ⟨hq, congrArg (·.backend.failNext) ha⟩
    · exact .inl ⟨key, delay, pid, _, rfl, harm⟩
  | remove key =>
    rcases remove_cases r key with ⟨-, ho⟩ | ⟨s, -, -, hq, ha⟩
    · rw [perform, ho]
      exact .inr ⟨⟨rfl, rfl⟩, rfl⟩
    · exact .inr ⟨hq, congrArg (·.backend.failNext) ha⟩
  | removeAll => exact .inr ⟨removeAll_quiet r, congrArg (·.backend.failNext) (removeAll_after r)⟩
  | update key delay pid =>
    rcases update_cases r key delay pid with ⟨e, ho⟩ | ⟨s, -, -, -, hq, ha⟩
    · rw [perform, ho]
      exact .inr ⟨⟨rfl, rfl⟩, rfl⟩
    · exact .inr ⟨hq, congrArg (·.backend.failNext) ha⟩

/-- A request that is no order hands nothing over, and leaves a prepared fault alone unless it prepares another. -/
theorem step_unordered {op : Op} {o : Outcome Answer} (hn : op.order? r.limits r.panel.defaultDelay = none)
    (ho : r.step op = some o) :
    Event.handsOver o.events = false ∧ o.after.backend.failNext = op.prepared?.or r.backend.failNext := by
  cases op with
  | perform order => cases hn
  | execute c => cases hn
  | setDefaultDelay delay =>
    cases ho
    rcases setDefaultDelay_cases r delay with ⟨e, h⟩ | ⟨-, -, hq, ha⟩
    · rw [h]
      exact ⟨rfl, rfl⟩
    · exact ⟨hq.handsOver_eq, congrArg (·.backend.failNext) ha⟩
  | write name input =>
    rcases step_write ho with ⟨q, hq, h⟩ | ⟨-, e, rfl⟩
    · rw [Op.order?_of_request? hq] at hn
      rw [h.handsOver_eq, h.after_eq]
      cases q with
      | execute c => cases hn
      | setEnabled on => exact ⟨rfl, rfl⟩
      | setDefaultDelay delay =>
        rcases setDefaultDelay_cases r delay with ⟨e, h⟩ | ⟨-, -, hq, ha⟩
        · rw [carryOut, h]
          exact ⟨rfl, rfl⟩
        · exact ⟨hq.handsOver_eq, congrArg (·.backend.failNext) ha⟩
    · exact ⟨rfl, rfl⟩
  | shutdown =>
    cases ho
    exact ⟨(shutdown_quiet r).handsOver_eq, congrArg (·.backend.failNext) (shutdown_after r)⟩
  | trigger probe pid =>
    obtain ⟨q, hq, rfl⟩ := Option.map_eq_some_iff.1 ho
    exact ⟨rfl, congrArg (·.failNext) (hitAll_backend pid _ hq)⟩
  | _ =>
    cases ho
    exact ⟨rfl, rfl⟩

/-- **What is handed to the backend is an addition, and it comes to arming its target.** -/
theorem step_handsOver {op : Op} {o : Outcome Answer} (ho : r.step op = some o) (hh : Event.handsOver o.events = true) :
    ∃ key delay pid t, op.order? r.limits r.panel.defaultDelay = some (.add key delay pid) ∧
      r.Arms t (r.add key delay pid) ∧ o.Alike (r.add key delay pid) := by
  cases hord : op.order? r.limits r.panel.defaultDelay with
  | none => exact absurd ((step_unordered hord ho).1.symm.trans hh) Bool.false_ne_true
  | some order =>
    have h := step_order hord ho
    rw [h.handsOver_eq] at hh
    rcases perform_arms_or_quiet (r := r) order with ⟨key, delay, pid, t, rfl, harm⟩ | ⟨hq, -⟩
    · exact ⟨key, delay, pid, t, rfl, harm, h.trans (Outcome.alike_map (fun _ => 1) _)⟩
    · exact absurd (hq.handsOver_eq.symm.trans hh) Bool.false_ne_true

theorem prepared?_of_order? {l : Limits} {op : Op} {defaultDelay : UInt64} {order : Order}
    (hord : op.order? l defaultDelay = some order) : op.prepared? = none := by
  cases op with
  | failNextArm f => cases hord
  | _ => rfl

/-- **A prepared fault is used up by whatever comes to the backend, and by nothing else**; another one replaces it. -/
theorem step_failNext {op : Op} {o : Outcome Answer} (ho : r.step op = some o) :
    o.after.backend.failNext = (r.call op o).leavesFault r.backend.failNext := by
  show _ = op.prepared?.or (if Event.handsOver o.events then none else r.backend.failNext)
  by_cases hh : Event.handsOver o.events = true
  · obtain ⟨key, delay, pid, t, hord, ⟨-, harm⟩, h⟩ := step_handsOver ho hh
    rw [if_pos hh, prepared?_of_order? hord, Option.none_or, h.after_eq]
    rcases harm with ⟨f, -, -, ha, -⟩ | ⟨hf, -, ha, -⟩
    · rw [ha]
      rfl
    · rw [ha]
      exact hf
  · rw [if_neg hh]
    cases hord : op.order? r.limits r.panel.defaultDelay with
    | none => exact (step_unordered hord ho).2
    | some order =>
      have h := step_order hord ho
      rw [h.handsOver_eq] at hh
      rw [prepared?_of_order? hord, Option.none_or, h.after_eq]
      rcases perform_arms_or_quiet (r := r) order with ⟨key, delay, pid, t, rfl, harm⟩ | ⟨-, ha⟩
      · exact absurd harm.1 hh
      · exact ha

/-! ## Runs -/

theorem step_fruitless {op : Op} {o : Outcome Answer} (ho : r.step op = some o) (hc : (r.call op o).fruitless = true) :
    o.after = r := by
  obtain ⟨hh, e, he⟩ := Call.fruitless_iff.1 hc
  rcases step_refused ho he with ⟨-, ha⟩ | ⟨ht, -⟩
  · exact ha
  · cases hh.symm.trans ht

/-- **A run may be stripped of fruitless calls**: the other requests get the answers they got, and the registry at the end is
the same. -/
theorem run_filter (keep : Call → Bool) : ∀ (ops : List Op) {r r' : Registry} {answers : List Answer},
    r.run ops = some (answers, r') → (∀ c ∈ r.calls ops, c.fruitless = false → keep c = true) →
      r.run (((r.calls ops).filter keep).map (·.op)) = some (((r.calls ops).filter keep).map (·.answer), r')
  | [], _, _, _, hr, _ => by
    cases hr
    rfl
  | op :: ops, r, r', answers, hr, hk => by
    obtain ⟨o, rest, ho, hrest, -⟩ := run_cons_eq_some_iff.1 hr
    rw [calls_cons ho] at hk ⊢
    have ih := run_filter keep ops hrest fun c hc => hk c (List.mem_cons_of_mem _ hc)
    by_cases hkeep : keep (r.call op o) = true
    · rw [List.filter_cons_of_pos hkeep]
      exact run_cons_eq_some_iff.2 ⟨o, _, ho, ih, rfl⟩
    · have hf : (r.call op o).fruitless = true := by
        simpa using mt (hk _ List.mem_cons_self) hkeep
      rw [List.filter_cons_of_neg hkeep]
      rwa [step_fruitless ho hf] at ih ⊢

/-- **A refused request leaves nothing behind.**  Whatever it was and wherever it failed, the registry is as before, limits,
targets, panel, probes, files, processes and machine, unless it was an addition that the backend refused, which uses up the
prepared fault.  Only such an addition uses it up.  And any refused requests that did not come as far as the backend can be
left out of a run: the others are answered as before and leave the same registry. -/
theorem refused_harmless (r : Registry) :
    (∀ (op : Op) (o : Outcome Answer) (e : Refusal), r.step op = some o → o.reply = .error e →
        r.Leaves (op.order? r.limits r.panel.defaultDelay) e (Event.handsOver o.events) o.after) ∧
      (∀ (op : Op) (o : Outcome Answer) (f : Fault), r.step op = some o → r.backend.failNext = some f →
        o.after.backend.failNext ≠ some f → (∃ f', op = .failNextArm f') ∨
          o.reply = .error (.attachFailed f) ∧ Event.handsOver o.events = true ∧ o.after = r.useFault ∧
            ∃ key delay pid, op.order? r.limits r.panel.defaultDelay = some (.add key delay pid)) ∧
      ∀ (ops : List Op) (answers : List Answer) (r' : Registry) (keep : Call → Bool), r.run ops = some (answers, r') →
        (∀ c ∈ r.calls ops, c.fruitless = false → keep c = true) →
          r.run (((r.calls ops).filter keep).map (·.op)) = some (((r.calls ops).filter keep).map (·.answer), r') := by
  refine ⟨fun op o e ho he => step_refused ho he, fun op o f ho hf hne => ?_, fun ops answers r' keep => run_filter keep ops⟩
  by_cases hh : Event.handsOver o.events = true
  · obtain ⟨key, delay, pid, t, hord, ⟨-, ⟨f', hf', hr, ha, -⟩ | ⟨hnone, -⟩⟩, h⟩ := step_handsOver ho hh
    · rw [hf] at hf'
      cases hf'
      exact .inr ⟨(h.error_iff _).2 hr, hh, h.after_eq.trans ha, key, delay, pid, hord⟩
    · rw [hf] at hnone
      cases hnone
  · rw [step_failNext ho, Call.leavesFault, if_neg (show ¬ (r.call op o).handedOver = true from hh), hf] at hne
    cases op with
    | failNextArm f' => exact .inl ⟨f', rfl⟩
    | _ => exact absurd rfl hne

/-- A registry over one file. -/
def stocked : Registry := { fresh {} with backend := { files := [(['/'], Blueprint.small.image .little)] } }

/-- With a fault prepared: a removal of what is not there, an addition for which there is no file, and one that comes to the
backend. -/
def attempts : List Op :=
  [.failNextArm (.kind .io), .perform (.remove ⟨['/'], ['f']⟩), .perform (.add ⟨['/', 'a'], ['f']⟩ 5 none),
    .perform (.add ⟨['/'], ['f']⟩ 5 none)]

theorem refused_harmless_attempts :
    ∃ answers r, stocked.run attempts = some (answers, r) ∧
      stocked.run [.failNextArm (.kind .io), .perform (.add ⟨['/'], ['f']⟩ 5 none)] =
        some ([.ok .done, .error (.attachFailed (.kind .io))], r) := by
  have hrun : (stocked.run attempts).map (·.2.slots.length) = some 0 := by decide +kernel
  have hcalls : (stocked.calls attempts).filter (!·.fruitless) =
      [⟨.failNextArm (.kind .io), .ok .done, [], false⟩,
        ⟨.perform (.add ⟨['/'], ['f']⟩ 5 none), .error (.attachFailed (.kind .io)), [], true⟩] := by decide +kernel
  obtain ⟨⟨answers, r⟩, hr, -⟩ := Option.map_eq_some_iff.1 hrun
  have h := (refused_harmless stocked).2.2 attempts answers r (!·.fruitless) hr fun c _ hc => by rw [hc]; rfl
  rw [hcalls] at h
  exact ⟨answers, r, hr, h⟩

end Registry
end DelayProbe
