import DelayProbe.Proofs.Interleaving
import DelayProbe.Proofs.Origin
/-!
# Accepted — what may still be said against a line that is read

A line that is read names no delay above the longest (`Command.delay_le_of_read`), and the delay that stands in where it names
none is within the limits at any time (`Registry.Orderly`).  So nothing is said any more against the line itself: what it asks
for is done, unless the registry has something against it (`Registry.against`), and that is about the names on the list or about
what is added (`Command.Declined`), whatever others do in between (`Session.Reached.write_accepted`).
-/
namespace DelayProbe
namespace Command

variable {l : Limits} {line : Text} {c : Command}

/-- The delay that a command names. -/
def delay? : Command → Option UInt64
  | .add s | .update s => s.delay
  | .remove _ | .removeAll => none

/-- **A line that is read names no delay above the longest.** -/
theorem delay_le_of_read (h : read l line = .ok c) : ∀ d ∈ c.delay?, d ≤ l.longestDelay := by
  obtain ⟨t, ⟨-, s, rfl, hs⟩ | ⟨-, s, rfl, hs⟩ | ⟨-, hr⟩⟩ := read_cases h
  · exact hs.askable.delay_le
  · exact hs.askable.delay_le
  · obtain ⟨-, rfl⟩ | ⟨-, k, rfl, -⟩ := readRemove_eq_ok_iff.1 hr <;> exact fun d hd => by cases hd

/-- What may be said against a command while these names are listed: an addition is refused for what is added, a removal or
an update only if its name is not there, and the removal of all targets never. -/
inductive Declined (names : List Key) : Command → Refusal → Prop
  | add {s : Spec} {e : Refusal} (h : e.OfAddition) : Declined names (.add s) e
  | remove {k : Key} (h : k ∉ names) : Declined names (.remove k) .notFound
  | update {s : Spec} (h : s.key ∉ names) : Declined names (.update s) .notFound

end Command

namespace Registry

variable {l : Limits} {r : Registry} {key : Key} {delay : UInt64} {line : Text} {c : Command}

/-- What a registry has against a command: the first objection to an addition, or that the name to remove or update is not
listed. -/
def against (r : Registry) : Command → Option Refusal
  | .add s => Stage.all.findSome? (r.objection r.backend.failNext s.key (s.delay.getD r.panel.defaultDelay))
  | .remove k => if k ∈ r.slots.map (·.target.key) then none else some .notFound
  | .removeAll => none
  | .update s => if s.key ∈ r.slots.map (·.target.key) then none else some .notFound

/-- The delay of a command is allowed, whether it is named or left out. -/
theorem Orderly.delay_le (h : Orderly l r) (hd : ∀ d ∈ c.delay?, d ≤ l.longestDelay) :
    c.delay?.getD r.panel.defaultDelay ≤ l.longestDelay := by
  cases hc : c.delay? with
  | none => exact h.defaultDelay_le
  | some d => exact hd d hc

/-- Every stage but the one that looks at the delay objects to what is added. -/
theorem objection_ofAddition (hd : delay ≤ r.limits.longestDelay) {prepared : Option Fault} {stage : Stage} {e : Refusal}
    (h : r.objection prepared key delay stage = some e) : e.OfAddition := by
  cases stage with
  | delay =>
    rw [objection, if_neg (UInt64.not_lt.2 hd)] at h
    cases h
  | name =>
    rw [objection] at h
    split at h <;> cases h
    exact .alreadyExists
  | room =>
    rw [objection] at h
    split at h <;> cases h
    exact .capacityExceeded
  | file =>
    rw [objection] at h
    split at h <;> cases h
    exact .attachFailed (.kind .notFound)
  | symbol =>
    obtain ⟨im, -, hu⟩ := Option.bind_eq_some_iff.1 h
    cases hp : im.resolve key.symbol with
    | ok p => rw [hp] at hu; cases hu
    | error u =>
      simp only [hp, Option.some.injEq, ← Refusal.ofUnresolved_eq] at hu
      exact hu ▸ Refusal.ofAddition_ofUnresolved u
  | arming =>
    obtain ⟨f, -, rfl⟩ := Option.map_eq_some_iff.1 h
    exact .attachFailed f

/-- **What a registry has against a command with an allowed delay declines it.** -/
theorem against_declined (hs : Orderly l r) (hd : ∀ d ∈ c.delay?, d ≤ l.longestDelay) {e : Refusal} (he : r.against c = some e) :
    c.Declined (r.slots.map (·.target.key)) e := by
  cases c with
  | add s =>
    obtain ⟨stage, -, hstage⟩ := List.exists_of_findSome?_eq_some he
    exact .add (objection_ofAddition (hs.limits_eq ▸ hs.delay_le hd) hstage)
  | remove k =>
    rw [against] at he
    split at he <;> cases he
    exact .remove ‹_›
  | removeAll => cases he
  | update s =>
    rw [against] at he
    split at he <;> cases he
    exact .update ‹_›

/-- **A removal is refused exactly if its name is not listed.** -/
theorem remove_reply (r : Registry) (key : Key) :
    (r.remove key).reply = if key ∈ r.slots.map (·.target.key) then .ok () else .error .notFound := by
  simp only [← slot?_isSome_iff]
  obtain ⟨hnone, ho⟩ | ⟨s, hs, hreply, -⟩ := remove_cases r key
  · rw [ho, hnone]
    rfl
  · rw [hreply, hs]
    rfl

/-- **An update with an allowed delay is refused exactly if its name is not listed.** -/
theorem update_reply (hd : delay ≤ r.limits.longestDelay) (pid : Option UInt32) :
    (r.update key delay pid).reply = if key ∈ r.slots.map (·.target.key) then .ok () else .error .notFound := by
  simp only [← slot?_isSome_iff]
  unfold update
  rw [Limits.checkDelay_eq_ok_iff.2 hd]
  cases (r.slot? key).isSome <;> rfl

/-- **A command with an allowed delay is refused with what there is against it, and for nothing else.** -/
theorem execute_error_iff (hs : Orderly l r) (hd : ∀ d ∈ c.delay?, d ≤ l.longestDelay) {e : Refusal} :
    (r.execute c).reply = .error e ↔ r.against c = some e := by
  have hdelay := hs.delay_le hd
  cases c with
  | add s =>
    refine ((Outcome.alike_map (fun _ => 1) (r.add s.key _ s.pid)).error_iff e).trans ?_
    rw [add_reply hs.roomy, against]
    cases Stage.all.findSome? _ <;> simp
  | remove k =>
    refine ((Outcome.alike_map (fun _ => 1) (r.remove k)).error_iff e).trans ?_
    rw [remove_reply, against]
    split <;> simp
  | removeAll =>
    constructor <;> intro h <;> cases h
  | update s =>
    refine ((Outcome.alike_map (fun _ => 1) (r.update s.key _ s.pid)).error_iff e).trans ?_
    rw [update_reply (hs.limits_eq.symm ▸ hdelay), against]
    split <;> simp

/-- A line that is read is a request to execute its command. -/
theorem Orderly.requestNamed (h : Orderly l r) (hc : Command.read l line = .ok c) :
    r.requestNamed Endpoint.targets.name line = .ok (.execute c) := by
  rw [requestNamed_targets, h.limits_eq, hc]
  rfl

/-- **A written line that is read is carried out, unless there is something against its command.** -/
theorem writeNamed_reply (hs : Orderly l r) (hc : Command.read l line = .ok c) :
    (r.writeNamed Endpoint.targets.name line).reply = (r.against c).elim (.ok line.byteLength) .error := by
  have herror : ∀ {e}, (r.execute c).reply = .error e ↔ r.against c = some e :=
    execute_error_iff hs (Command.delay_le_of_read hc)
  rw [(writeNamed_execute (hs.requestNamed hc)).1]
  cases ha : r.against c with
  | some e =>
    rw [herror.2 ha]
    rfl
  | none =>
    cases hr : (r.execute c).reply with
    | ok n => rfl
    | error e =>
      rw [herror.1 hr] at ha
      cases ha

end Registry

namespace Session

variable {l : Limits} {run : Runner} {s : Session} {line : Text} {c : Command}

/-- **A command whose delay is allowed is carried out or declined.** -/
theorem perform_declined (hrun : Keeps (Registry.Orderly l) run) (hs : s.registry.Orderly l)
    (hd : ∀ d ∈ c.delay?, d ≤ l.longestDelay) {h : Heard (Except Refusal Nat)}
    (hh : s.perform run (c.order s.registry.panel.defaultDelay) = some h) {e : Refusal} (he : h.reply = .error e) :
    c.Declined (s.registry.slots.map (·.target.key)) e := by
  cases c with
  | add spec =>
    obtain ⟨a, ha, rfl⟩ := Option.map_eq_some_iff.1 hh
    refine .add (add_error hrun hs (hs.delay_le hd) ha ?_)
    cases hr : a.reply with
    | ok _ => simp [Heard.map, hr, Except.map] at he
    | error e' => simpa [Heard.map, hr, Except.map] using he
  | _ =>
    -- nothing comes in between, so the answer is the registry's own
    cases hh
    exact Registry.against_declined hs hd ((Registry.execute_error_iff hs hd).1 he)

/-- **A line that is read and written is carried out or declined**, whatever is prepared. -/
theorem operate_declined (hrun : Keeps (Registry.Orderly l) run) (hs : s.registry.Orderly l) (hc : Command.read l line = .ok c)
    {h : Heard Answer} (hh : s.operate run (.write Endpoint.targets.name line) = some h) :
    h.reply = .ok (.number line.byteLength) ∨
      ∃ e, h.reply = .error e ∧ c.Declined (s.registry.slots.map (·.target.key)) e := by
  rw [operate_write (hs.requestNamed hc)] at hh
  obtain ⟨a, ha, rfl⟩ := Option.map_eq_some_iff.1 hh
  cases hr : a.reply with
  | ok n => exact .inl rfl
  | error e =>
    refine .inr ⟨e, rfl, ?_⟩
    exact perform_declined (s := (s.hear ⟨(), s.registry, [.commanded c]⟩).after) hrun hs (Command.delay_le_of_read hc) ha hr

theorem step_declined (hs : s.registry.Orderly l) (hc : Command.read l line = .ok c) (depth : Nat) {h : Heard Answer}
    (hh : s.step depth (.op (.write Endpoint.targets.name line)) = some h) :
    h.reply = .ok (.number line.byteLength) ∨
      ∃ e, h.reply = .error e ∧ c.Declined (s.registry.slots.map (·.target.key)) e := by
  have hstable := Registry.stable_orderly l
  cases depth with
  | zero => exact operate_declined (fun _ _ _ hs hh => by cases hh; exact hs) hs hc hh
  | succ depth => exact operate_declined (runNested_stable fun _ _ _ hs hh => step_stable hstable depth hs hh) hs hc hh

/-- **In every state, a line that is read is carried out when it is written, or declined**: an addition for its name, for want
of room, for a fault, or for its symbol; a removal or an update because its name is not listed; the removal of all targets
never.  A registry by itself carries it out unless it has something against the command, which then is the answer; and declined
for such a reason it is whatever steps are prepared for the middle of an addition. -/
theorem Reached.write_accepted (hs : Reached l s) (hc : Command.read l line = .ok c) :
    let r := s.registry
    let names := r.slots.map (·.target.key)
    (r.writeNamed Endpoint.targets.name line).reply = (r.against c).elim (.ok line.byteLength) .error ∧
      (∀ e, r.against c = some e → c.Declined names e) ∧
      ∀ depth h, s.step depth (.op (.write Endpoint.targets.name line)) = some h →
        h.reply = .ok (.number line.byteLength) ∨ ∃ e, h.reply = .error e ∧ c.Declined names e :=
  ⟨Registry.writeNamed_reply hs.orderly hc, fun _ => Registry.against_declined hs.orderly (Command.delay_le_of_read hc),
    fun depth _ => step_declined hs.orderly hc depth⟩

/-- An update that names no delay is never declined while its target is listed. -/
theorem Reached.write_accepted_delayLeftOut :
    ∃ s, Reached {} s ∧ s.registry.panel.defaultDelay = 7 ∧
      (s.registry.writeNamed Endpoint.targets.name "=/:f".toList).reply = .ok 4 ∧
      ∀ depth h, s.step depth (.op (.write Endpoint.targets.name "=/:f".toList)) = some h → h.reply = .ok (.number 4) := by
  have hrun : ((Registry.fresh {}).run [.insertFile ['/'] (Blueprint.small.image .little),
      .write Endpoint.targets.name "+/:f".toList, .write Endpoint.defaultDelay.name "7".toList]).map
        (fun p => (p.2.slots.map (·.target.key), p.2.panel.defaultDelay)) = some ([⟨['/'], ['f']⟩], 7) := by decide +kernel
  have hread : Command.read {} "=/:f".toList = .ok (.update ⟨⟨['/'], ['f']⟩, none, none⟩) := by decide +kernel
  obtain ⟨⟨answers, r⟩, hr, hp⟩ := Option.map_eq_some_iff.1 hrun
  obtain ⟨hnames, hdelay⟩ := Prod.mk.inj hp
  obtain ⟨s, hs, -, rfl⟩ := Reached.of_run (m := {}) .standard hr
  have hlisted : (⟨['/'], ['f']⟩ : Key) ∈ s.registry.slots.map (·.target.key) := by
    rw [show s.registry.slots.map (·.target.key) = _ from hnames]
    exact List.mem_singleton_self _
  obtain ⟨halone, -, hany⟩ := hs.write_accepted hread
  rw [Registry.against, if_pos hlisted] at halone
  refine ⟨s, hs, hdelay, halone, fun depth h hh => (hany depth h hh).resolve_right ?_⟩
  rintro ⟨e, -, _ | _ | hgone⟩
  exact hgone hlisted

end Session
end DelayProbe
