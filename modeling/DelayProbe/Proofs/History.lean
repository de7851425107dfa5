import DelayProbe.Proofs.Effects
/-!
# History — a run written down call by call

A `Call` is what shows of a request: the request, its answer, what a passing process was told by which listed targets, and
whether a target was handed to the backend.  `Registry.calls` writes a run down.  What is noted call by call, and kept in step
with the registry by every call, is in step with it after any run (`Registry.run_foldl`).  Requests that reach the registry by
different ways come to the same (`Registry.step_perform`, `Registry.step_request`).
-/
namespace DelayProbe

/-! ## What a request asks for -/

theorem Endpoint.ofName?_name (e : Endpoint) : ofName? e.name = some e := by cases e <;> decide

theorem Endpoint.name_of_ofName? {n : Text} {e : Endpoint} (h : ofName? n = some e) : n = e.name := by
  unfold ofName? at h
  have hname := List.find?_some h
  exact (of_decide_eq_true hname).symm

/-- What a request asks the registry to do, under limits; what is written to an endpoint is read first. -/
def Op.request? (l : Limits) : Op → Option Request
  | .execute c => some (.execute c)
  | .setEnabled on => some (.setEnabled on)
  | .setDefaultDelay delay => some (.setDefaultDelay delay)
  | .write name input => (Endpoint.ofName? name).bind fun e => (e.request l input).toOption
  | _ => none

def Request.order? (defaultDelay : UInt64) : Request → Option Order
  | .execute c => some (c.order defaultDelay)
  | _ => none

/-- The change of the set of targets that a request asks for; a delay left out is the default one. -/
def Op.order? (l : Limits) (defaultDelay : UInt64) : Op → Option Order
  | .perform o => some o
  | op => (op.request? l).bind (·.order? defaultDelay)

theorem Op.order?_of_request? {l : Limits} {op : Op} {q : Request} (hq : op.request? l = some q) (defaultDelay : UInt64) :
    op.order? l defaultDelay = q.order? defaultDelay := by
  cases op with
  | perform o => cases hq
  | _ => simp only [order?, hq, Option.bind_some]

theorem Op.eq_or_request?_of_order? {l : Limits} {defaultDelay : UInt64} {op : Op} {order : Order}
    (h : op.order? l defaultDelay = some order) :
    op = .perform order ∨ ∃ c, op.request? l = some (.execute c) ∧ order = c.order defaultDelay := by
  cases op with
  | perform o =>
    cases h
    exact .inl rfl
  | _ =>
    simp only [order?, Option.bind_eq_some_iff] at h
    obtain ⟨q, hq, hqo⟩ := h
    cases q with
    | execute c =>
      cases hqo
      exact .inr ⟨c, hq, rfl⟩
    | _ => cases hqo

def Order.added? : Order → Option Key
  | .add key _ _ => some key
  | _ => none

/-- The name that a request asks to list. -/
def Op.added? (l : Limits) (op : Op) : Option Key := (op.order? l l.defaultDelay).bind Order.added?

theorem Command.added?_order (c : Command) (d d' : UInt64) : (c.order d).added? = (c.order d').added? := by cases c <;> rfl

/-- Which delay is the default one makes no difference to the name. -/
theorem Op.added?_eq (l : Limits) (op : Op) (defaultDelay : UInt64) :
    op.added? l = (op.order? l defaultDelay).bind Order.added? := by
  cases op with
  | perform o => rfl
  | _ =>
    simp only [added?, order?]
    cases request? l _ with
    | none => rfl
    | some q =>
      cases q with
      | execute c => exact c.added?_order _ _
      | _ => rfl

/-! ## Calls -/

/-- The delay of a process that was delayed. -/
def Verdict.delay? : Verdict → Option UInt64
  | .delayed ns => some ns
  | _ => none

def delaysIn (vs : List Verdict) : List UInt64 := vs.filterMap Verdict.delay?

theorem delaysIn_one (v : Verdict) : delaysIn [v] = v.delay?.toList := by cases v <;> rfl

theorem delaysIn_cons (v : Verdict) (vs : List Verdict) : delaysIn (v :: vs) = delaysIn [v] ++ delaysIn vs := by
  unfold delaysIn
  rw [← List.filterMap_append, List.singleton_append]

/-- The delays among verdicts, each beside its name. -/
def hitsAmong (told : List (Key × Verdict)) : List (Key × UInt64) := told.filterMap fun p => p.2.delay?.map (p.1, ·)

instance decEqExcept {ε α : Type} [DecidableEq ε] [DecidableEq α] : DecidableEq (Except ε α)
  | .error e, .error e' => decidable_of_iff (e = e') (by rw [Except.error.injEq])
  | .ok a, .ok a' => decidable_of_iff (a = a') (by rw [Except.ok.injEq])
  | .error _, .ok _ | .ok _, .error _ => .isFalse (fun h => by cases h)

structure Call where
  op : Op
  answer : Answer
  told : List (Key × Verdict) := []
  handedOver : Bool := false
  deriving DecidableEq

namespace Call

/-- The delays that a passing process was answered. -/
def delays (c : Call) : List UInt64 :=
  match c.op, c.answer with
  | .trigger _ _, .ok (.verdicts vs) => delaysIn vs
  | _, _ => []

/-- The name that a call listed. -/
def added? (l : Limits) (c : Call) : Option Key :=
  match c.answer with
  | .error _ => none
  | .ok _ => c.op.added? l

/-- The delays, each beside the name of the target it was told by. -/
def hits (c : Call) : List (Key × UInt64) :=
  match c.op, c.answer with
  | .trigger _ _, .ok _ => hitsAmong c.told
  | _, _ => []

/-- Whether a call reset the counts. -/
def resets (c : Call) : Bool :=
  match c.op, c.answer with
  | .resetStats, .ok _ => true
  | _, _ => false

end Call

namespace Registry

/-- The name of the target that a probe acts on. -/
def nameAt? (r : Registry) (handle : UInt64) : Option Key :=
  (r.slots.find? fun s => decide (s.handle = handle)).map (·.target.key)

/-- What probes said, each beside the name of its target. -/
def byName (r : Registry) (handles : List UInt64) (vs : List Verdict) : List (Key × Verdict) :=
  (handles.zip vs).filterMap fun p => (r.nameAt? p.1).map (·, p.2)

/-- What was told to a process that passed a place, and by which targets. -/
def told (r : Registry) : Op → Answer → List (Key × Verdict)
  | .trigger probe _, .ok (.verdicts vs) => r.byName (r.backend.armedAt probe) vs
  | _, _ => []

/-- What shows of a request to a registry, given what it came to. -/
def call (r : Registry) (op : Op) (o : Outcome Answer) : Call :=
  ⟨op, o.reply, r.told op o.reply, Event.handsOver o.events⟩

/-- A run written down, as far as its requests come back. -/
def calls (r : Registry) : List Op → List Call
  | [] => []
  | op :: rest =>
    match r.step op with
    | none => []
    | some o => r.call op o :: o.after.calls rest

theorem calls_cons {r : Registry} {op : Op} {o : Outcome Answer} (ho : r.step op = some o) (ops : List Op) :
    r.calls (op :: ops) = r.call op o :: o.after.calls ops := by
  rw [calls, ho]

theorem run_cons_eq_some_iff {r r' : Registry} {op : Op} {ops : List Op} {answers : List Answer} :
    r.run (op :: ops) = some (answers, r') ↔
      ∃ o rest, r.step op = some o ∧ o.after.run ops = some (rest, r') ∧ answers = o.reply :: rest := by
  rw [run, Option.bind_eq_some_iff]
  constructor
  · rintro ⟨o, ho, h⟩
    obtain ⟨⟨rest, r₂⟩, hrest, he⟩ := Option.map_eq_some_iff.1 h
    cases he
    exact ⟨o, rest, ho, hrest, rfl⟩
  · rintro ⟨o, rest, ho, hrest, rfl⟩
    exact ⟨o, ho, by rw [hrest]; rfl⟩

/-- **What every call keeps in step with the notes taken of it, a run keeps in step.** -/
theorem run_foldl {σ : Type} {R : Registry → σ → Prop} {note : σ → Call → σ}
    (hstep : ∀ {r : Registry} {s : σ} {op : Op} {o : Outcome Answer}, R r s → r.step op = some o →
      R o.after (note s (r.call op o))) :
    ∀ (ops : List Op) {r r' : Registry} {s : σ} {answers : List Answer}, R r s → r.run ops = some (answers, r') →
      R r' ((r.calls ops).foldl note s)
  | [], _, _, _, _, h, hr => by
    cases hr
    exact h
  | op :: ops, r, r', s, answers, h, hr => by
    obtain ⟨o, rest, ho, hrest, -⟩ := run_cons_eq_some_iff.1 hr
    rw [calls_cons ho, List.foldl_cons]
    exact run_foldl hstep ops (hstep h ho) hrest

/-- The calls of a run that came back hold its requests and its answers. -/
theorem calls_of_run : ∀ (ops : List Op) {r r' : Registry} {answers : List Answer}, r.run ops = some (answers, r') →
    (r.calls ops).map (·.op) = ops ∧ (r.calls ops).map (·.answer) = answers
  | [], _, _, _, hr => by
    cases hr
    exact ⟨rfl, rfl⟩
  | op :: ops, r, r', answers, hr => by
    obtain ⟨o, rest, ho, hrest, rfl⟩ := run_cons_eq_some_iff.1 hr
    obtain ⟨hops, hans⟩ := calls_of_run ops hrest
    rw [calls_cons ho, List.map_cons, List.map_cons, hops, hans]
    exact ⟨rfl, rfl⟩

end Registry

/-! ## Requests that come to the same -/

/-- Two outcomes that differ at most in what a good answer holds. -/
structure Outcome.Alike {α β : Type} (o : Outcome (Except Refusal α)) (o' : Outcome (Except Refusal β)) : Prop where
  after_eq : o.after = o'.after
  error_iff : ∀ e, o.reply = .error e ↔ o'.reply = .error e
  handsOver_eq : Event.handsOver o.events = Event.handsOver o'.events

theorem Outcome.Alike.trans {α β γ : Type} {o : Outcome (Except Refusal α)} {o' : Outcome (Except Refusal β)}
    {o'' : Outcome (Except Refusal γ)} (h : o.Alike o') (h' : o'.Alike o'') : o.Alike o'' :=
  ⟨h.after_eq.trans h'.after_eq, fun e => (h.error_iff e).trans (h'.error_iff e), h.handsOver_eq.trans h'.handsOver_eq⟩

theorem Outcome.Alike.exists_ok {α β : Type} {o : Outcome (Except Refusal α)} {o' : Outcome (Except Refusal β)}
    (h : o.Alike o') {b : β} (hb : o'.reply = .ok b) : ∃ a, o.reply = .ok a := by
  cases ho : o.reply with
  | ok a => exact ⟨a, rfl⟩
  | error e =>
    rw [(h.error_iff e).1 ho] at hb
    cases hb

theorem Outcome.alike_map {α β : Type} (f : α → β) (o : Outcome (Except Refusal α)) : (o.map (·.map f)).Alike o := by
  refine ⟨rfl, fun e => ?_, rfl⟩
  unfold Outcome.map
  cases o.reply <;> simp [Except.map]

namespace Registry

variable {r : Registry} {o : Outcome Answer}

theorem step_perform {order : Order} (ho : r.step (.perform order) = some o) : o.Alike (r.perform order) := by
  cases order with
  | removeAll =>
    cases ho
    exact ⟨rfl, fun e => by simp [Outcome.map, perform], rfl⟩
  | add key delay pid | remove key | update key delay pid =>
    cases ho
    refine ⟨rfl, fun e => ?_, rfl⟩
    rw [(Outcome.alike_map (fun _ => Reply.done) _).error_iff]
    exact ((Outcome.alike_map (fun _ => 1) _).error_iff e).symm

theorem requestNamed_eq_ok_iff {name input : Text} {q : Request} :
    r.requestNamed name input = .ok q ↔ (Op.write name input).request? r.limits = some q := by
  simp only [requestNamed, Op.request?]
  cases Endpoint.ofName? name with
  | none => simp
  | some e => cases h : e.request r.limits input <;> simp [h, Except.toOption]

theorem requestNamed_name (r : Registry) (e : Endpoint) (input : Text) :
    r.requestNamed e.name input = e.request r.limits input := by
  rw [requestNamed, Endpoint.ofName?_name]

theorem readNamed_name (r : Registry) (e : Endpoint) : r.readNamed e.name = r.read e := by
  rw [readNamed, Endpoint.ofName?_name]

/-- A command that is written comes to its execution, and a good answer to the length of what was written. -/
theorem writeNamed_execute {name input : Text} {c : Command} (hq : r.requestNamed name input = .ok (.execute c)) :
    (r.writeNamed name input).reply = (r.execute c).reply.map (fun _ => input.byteLength) ∧
      (r.writeNamed name input).after = (r.execute c).after := by
  rw [writeNamed, hq]
  refine ⟨?_, rfl⟩
  simp only [Outcome.map, carryOut]
  cases (r.execute c).reply <;> rfl

/-- **A request is carried out in the same way whether it is made directly or written to an endpoint.** -/
theorem step_request {op : Op} {q : Request} (hq : op.request? r.limits = some q) (ho : r.step op = some o) :
    o.Alike (r.carryOut q) := by
  cases op with
  | execute c =>
    cases hq
    cases ho
    refine ⟨rfl, fun e => ?_, rfl⟩
    rw [(Outcome.alike_map Reply.number (r.execute c)).error_iff e]
    exact ((Outcome.alike_map (fun _ => ()) (r.execute c)).error_iff e).symm
  | setEnabled on =>
    cases hq
    cases ho
    exact ⟨rfl, fun e => by simp [Outcome.map, carryOut], rfl⟩
  | setDefaultDelay delay =>
    cases hq
    cases ho
    exact Outcome.alike_map _ _
  | write name input =>
    have hn := requestNamed_eq_ok_iff.2 hq
    cases ho
    unfold writeNamed
    rw [hn]
    refine ⟨rfl, fun e => ?_, rfl⟩
    rw [(Outcome.alike_map Reply.number _).error_iff, (Outcome.alike_map (fun _ => input.byteLength) _).error_iff]
  | _ => cases hq

theorem carryOut_execute (c : Command) : (r.carryOut (.execute c)).Alike (r.execute c) :=
  ⟨rfl, (Outcome.alike_map (fun _ => ()) (r.execute c)).error_iff, rfl⟩

/-- **A request for a change of the set of targets comes to its order.** -/
theorem step_order {op : Op} {order : Order} (hord : op.order? r.limits r.panel.defaultDelay = some order)
    (ho : r.step op = some o) : o.Alike (r.perform order) := by
  rcases Op.eq_or_request?_of_order? hord with rfl | ⟨c, hq, rfl⟩
  · exact step_perform ho
  · exact (step_request hq ho).trans (carryOut_execute c)

/-- **What is written to an endpoint is carried out, or cannot be read and changes nothing.** -/
theorem step_write {name input : Text} (ho : r.step (.write name input) = some o) :
    (∃ q, (Op.write name input).request? r.limits = some q ∧ o.Alike (r.carryOut q)) ∨
      (Op.write name input).request? r.limits = none ∧ ∃ e, o = ⟨.error e, r, []⟩ := by
  cases hq : (Op.write name input).request? r.limits with
  | some q => exact .inl ⟨q, rfl, step_request hq ho⟩
  | none =>
    simp only [step, writeNamed] at ho
    cases h : r.requestNamed name input with
    | error e =>
      rw [h] at ho
      cases ho
      exact .inr ⟨rfl, e, rfl⟩
    | ok q =>
      rw [requestNamed_eq_ok_iff.1 h] at hq
      cases hq

end Registry
end DelayProbe
