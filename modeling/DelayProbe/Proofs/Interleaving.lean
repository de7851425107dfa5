import DelayProbe.Session
import DelayProbe.Proofs.Objection
import DelayProbe.Proofs.Tally
/-!
# Interleaving — what holds of a registry that others work on between the stages of an addition

What requests, the device, hits and installations keep is kept by every step of a session, however deep prepared steps are
inside each other (`Registry.Stable.step_session`), and so holds of every session that comes of a new registry
(`Session.Reached.of_stable`).  Such is the order of a registry: its limits hold, no two targets share a name, and the default
delay is allowed (`Registry.stable_orderly`).  A session with nothing prepared does as its registry does
(`Session.step_of_alone`), so runs of requests are among them (`Session.Reached.of_run`).
-/
namespace DelayProbe

/-- The refusals that are about what is added: its name is taken, there is no room, the backend reports a fault, or the symbol
has no place in the file. -/
inductive Refusal.OfAddition : Refusal → Prop
  | alreadyExists : OfAddition .alreadyExists
  | capacityExceeded : OfAddition .capacityExceeded
  | attachFailed (f : Fault) : OfAddition (.attachFailed f)
  | resolutionFailed (u : Unresolved) : OfAddition (.resolutionFailed u)
  | notExecutable (u : Unresolved) : OfAddition (.notExecutable u)

theorem Refusal.ofAddition_ofUnresolved (u : Unresolved) : (ofUnresolved u).OfAddition := by
  unfold ofUnresolved
  split
  · exact .notExecutable u
  · exact .resolutionFailed u

namespace Registry

variable {l : Limits} {r r' : Registry} {key : Key} {delay : UInt64}

/-! ## The order of a registry -/

/-- What is kept of a registry whoever works on it. -/
structure Orderly (l : Limits) (r : Registry) : Prop where
  limits_eq : r.limits = l
  distinct : r.Distinct
  roomy : r.Roomy
  defaultDelay_le : r.panel.defaultDelay ≤ l.longestDelay

theorem Orderly.congr (h : Orderly l r) (hl : r'.limits = r.limits)
    (hn : r'.slots.map (·.target.key) = r.slots.map (·.target.key)) (hd : r'.panel.defaultDelay = r.panel.defaultDelay) :
    Orderly l r' := by
  have hlength : r'.slots.length = r.slots.length := by
    have := congrArg List.length hn
    rwa [List.length_map, List.length_map] at this
  refine ⟨hl.trans h.limits_eq, ?_, ?_, hd ▸ h.defaultDelay_le⟩
  · unfold Distinct
    rw [hn]
    exact h.distinct
  · unfold Roomy
    rw [hlength, hl]
    exact h.roomy

theorem New.orderly (hnew : New l r) (m : Machine) : Orderly l { r with machine := m } :=
  have h := (hnew.numbered m).toSound
  ⟨h.limits_eq, h.keys_nodup, h.limits_eq ▸ h.length_le, h.defaultDelay_le⟩

theorem carryOut_defaultDelay (r : Registry) (q : Request) :
    (r.carryOut q).after.panel.defaultDelay = r.panel.defaultDelay ∨
      (r.carryOut q).after.panel.defaultDelay ≤ r.limits.longestDelay := by
  cases q with
  | setEnabled on => exact .inl rfl
  | setDefaultDelay delay =>
    rcases setDefaultDelay_cases r delay with ⟨e, he⟩ | ⟨hle, -, -, ha⟩
    · rw [carryOut, he]
      exact .inl rfl
    · rw [carryOut, ha]
      exact .inr hle
  | execute c => exact .inl (congrArg (·.defaultDelay) (perform_panel r (c.order r.panel.defaultDelay)))

/-- **The default delay stays as it is or becomes one that the limits allow.** -/
theorem step_defaultDelay (hd : r.Distinct) {op : Op} {o : Outcome Answer} (ho : r.step op = some o) :
    o.after.panel.defaultDelay = r.panel.defaultDelay ∨ o.after.panel.defaultDelay ≤ r.limits.longestDelay := by
  have requested : ∀ {q : Request}, op.request? r.limits = some q → o.after.panel.defaultDelay = r.panel.defaultDelay ∨
      o.after.panel.defaultDelay ≤ r.limits.longestDelay := fun {q} hq => by
    rw [(step_request hq ho).after_eq]
    exact carryOut_defaultDelay r q
  cases op with
  | perform order =>
    rw [(step_perform ho).after_eq, perform_panel]
    exact .inl rfl
  | execute c => exact requested rfl
  | setEnabled on => exact requested rfl
  | setDefaultDelay delay => exact requested rfl
  | write name input =>
    rcases step_write ho with ⟨q, hq, -⟩ | ⟨-, e, rfl⟩
    · exact requested hq
    · exact .inl rfl
  | shutdown =>
    cases ho
    exact .inl (congrArg (·.panel.defaultDelay) (shutdown_after r))
  | trigger probe pid =>
    obtain ⟨⟨vs, r'⟩, ht, rfl⟩ := Option.map_eq_some_iff.1 ho
    exact .inl (congrArg Roll.defaultDelay (hitAll_roll pid _ hd ht).1)
  | _ =>
    cases ho
    exact .inl rfl

theorem step_orderly (h : Orderly l r) {op : Op} {o : Outcome Answer} (ho : r.step op = some o) : Orderly l o.after := by
  have hlimits := step_limits h.distinct ho
  refine ⟨hlimits.trans h.limits_eq, step_distinct h.distinct ho, step_roomy h.distinct h.roomy ho, ?_⟩
  rcases step_defaultDelay h.distinct ho with he | hle
  · rw [he]
    exact h.defaultDelay_le
  · rw [← h.limits_eq]
    exact hle

theorem stepDevice_orderly (h : Orderly l r) {op : DeviceOp} {o : Outcome Answer} (ho : r.stepDevice op = some o) :
    Orderly l o.after := by
  cases op with
  | wait ns =>
    obtain ⟨m, -, rfl⟩ := Option.map_eq_some_iff.1 ho
    exact h.congr rfl rfl rfl
  | _ =>
    cases ho
    exact h.congr rfl rfl rfl

theorem hit_orderly (h : Orderly l r) {handle : UInt64} {pid : UInt32} {v : Verdict} (hh : r.hit handle pid = some (v, r')) :
    Orderly l r' := by
  have hroll := hit_roll h.distinct hh
  exact h.congr (congrArg Roll.limits hroll) (names_of_identity (hit_identity hh)) (congrArg Roll.defaultDelay hroll)

theorem useFault_orderly (h : Orderly l r) : Orderly l r.useFault := h.congr rfl rfl rfl

theorem enlist_orderly (h : Orderly l r) {t : Target} (hins : r.checkInsertable t.key = .ok ()) : Orderly l (r.enlist t) := by
  obtain ⟨hnew, hroom⟩ := checkInsertable_eq_ok_iff.1 hins
  refine ⟨h.limits_eq, ?_, ?_, h.defaultDelay_le⟩
  · unfold Distinct
    rw [enlist, List.map_append]
    exact nodup_names_concat h.distinct hnew
  · unfold Roomy
    rw [enlist, List.length_append, List.length_singleton]
    exact hroom

/-! ## Installing -/

theorem checkInsertable_error {e : Refusal} (h : r.checkInsertable key = .error e) : e.OfAddition := by
  unfold checkInsertable at h
  split at h
  · cases h
    exact .alreadyExists
  · split at h
    · cases h
      exact .capacityExceeded
    · cases h

theorem checkAdd_error {e : Refusal} (h : r.checkAdd key delay = .error e) (hd : delay ≤ r.limits.longestDelay) :
    e.OfAddition := by
  unfold checkAdd at h
  rw [Limits.checkDelay_eq_ok_iff.2 hd] at h
  exact checkInsertable_error h

/-- **An image that was read is of no use, or the target is taken or one too many, and nothing changes; or the target comes to
be armed.** -/
theorem install_cases (r : Registry) (key : Key) (delay : UInt64) (pid : Option UInt32) (im : Image) :
    (∃ e, e.OfAddition ∧ (r.install key delay pid im).reply = .error e ∧ (r.install key delay pid im).after = r) ∨
      ∃ p, im.resolve key.symbol = .ok p ∧ r.checkInsertable key = .ok () ∧
        r.Arms (newTarget key p.offset delay pid) (r.install key delay pid im) := by
  have hquiet := placeIn_quiet key im
  unfold install
  unfold placeIn at hquiet ⊢
  cases hp : im.resolve key.symbol with
  | error u => exact .inl ⟨_, Refusal.ofAddition_ofUnresolved u, rfl, rfl⟩
  | ok p =>
    simp only [hp] at hquiet ⊢
    cases hins : r.checkInsertable key with
    | error e => exact .inl ⟨e, checkInsertable_error hins, rfl, rfl⟩
    | ok _ =>
      have ha := attach_arms r (newTarget key p.offset delay pid) pid
      refine .inr ⟨p, rfl, rfl, ?_⟩
      simpa only [Arms, Event.armings_append, hquiet.armings_eq, Nat.zero_add, Event.handsOver_append, ha.1,
        Bool.or_true] using ha

theorem install_orderly (h : Orderly l r) (key : Key) (delay : UInt64) (pid : Option UInt32) (im : Image) :
    Orderly l (r.install key delay pid im).after := by
  rcases install_cases r key delay pid im with ⟨e, -, -, ha⟩ | ⟨p, -, hins, -, ⟨f, -, -, ha, -⟩ | ⟨-, -, ha, -⟩⟩
  · rw [ha]
    exact h
  · rw [ha]
    exact useFault_orderly h
  · rw [ha]
    exact enlist_orderly h hins

theorem install_error {pid : Option UInt32} {im : Image} {e : Refusal}
    (he : (r.install key delay pid im).reply = .error e) : e.OfAddition := by
  rcases install_cases r key delay pid im with ⟨e', he', hr, -⟩ | ⟨p, -, -, -, ⟨f, -, hr, -⟩ | ⟨-, hr, -⟩⟩ <;>
    rw [hr] at he <;> cases he
  · exact he'
  · exact .attachFailed f

/-! ## What is kept -/

/-- A property that nothing done to a registry undoes. -/
structure Stable (P : Registry → Prop) : Prop where
  step : ∀ {r op o}, P r → r.step op = some o → P o.after
  stepDevice : ∀ {r op o}, P r → r.stepDevice op = some o → P o.after
  hit : ∀ {r r' handle pid v}, P r → r.hit handle pid = some (v, r') → P r'
  install : ∀ {r}, P r → ∀ key delay pid im, P (r.install key delay pid im).after

theorem stable_orderly (l : Limits) : Stable (Orderly l) :=
  ⟨fun h => step_orderly h, fun h => stepDevice_orderly h, fun h => hit_orderly h, install_orderly⟩

theorem perform_step (r : Registry) (order : Order) :
    ∃ o, r.step (.perform order) = some o ∧ o.after = (r.perform order).after := by
  cases order <;> exact ⟨_, rfl, rfl⟩

theorem Stable.perform {P : Registry → Prop} (hP : Stable P) (h : P r) (order : Order) : P (r.perform order).after := by
  obtain ⟨o, ho, ha⟩ := perform_step r order
  exact ha ▸ hP.step h ho

end Registry

namespace Session

variable {P : Registry → Prop} {run : Runner} {s : Session} {key : Key} {delay : UInt64} {pid : Option UInt32}

/-! ## The stages of an addition -/

theorem openFile_registry (s : Session) (path : Text) : (s.openFile path).after.registry = s.registry := by
  unfold openFile
  cases s.openFault <;> rfl

theorem readFile_registry (s : Session) (path : Text) : (s.readFile path).after.registry = s.registry := by
  unfold readFile
  cases s.readFault <;> rfl

/-- The prepared steps keep a property of the registry. -/
def Keeps (P : Registry → Prop) (run : Runner) : Prop :=
  ∀ steps s h, P s.registry → run steps s = some h → P h.after.registry

/-- **An addition is refused by the checks, or its file cannot be opened or read, or it is installed in what the prepared steps
have made of the registry by then.** -/
theorem add_cases (hrun : Keeps P run) (hs : P s.registry) {h : Heard (Except Refusal Unit)}
    (hh : s.add run key delay pid = some h) :
    (∃ e, s.registry.checkAdd key delay = .error e ∧ h.reply = .error e ∧ h.after.registry = s.registry) ∨
      (∃ f, h.reply = .error (.attachFailed f) ∧ P h.after.registry) ∨
      ∃ r im, P r ∧ h.reply = (r.install key delay pid im).reply ∧
        h.after.registry = (r.install key delay pid im).after := by
  unfold add at hh
  cases hc : s.registry.checkAdd key delay with
  | error e =>
    rw [hc] at hh
    cases hh
    exact .inl ⟨e, rfl, rfl, rfl⟩
  | ok _ =>
    have hopened : P (s.openFile key.path).after.registry := (openFile_registry s key.path).symm ▸ hs
    simp only [hc] at hh
    refine .inr ?_
    cases ho : (s.openFile key.path).reply with
    | error f =>
      simp only [ho] at hh
      cases hh
      exact .inl ⟨f, rfl, hopened⟩
    | ok _ =>
      simp only [ho] at hh
      split at hh
      · cases hh
      · rename_i a ha
        have ha' : P a.after.registry := hrun _ { (s.openFile key.path).after with openSteps := none } _ hopened ha
        have hread : P (a.after.readFile key.path).after.registry := (readFile_registry a.after key.path).symm ▸ ha'
        cases hd : (a.after.readFile key.path).reply with
        | error f =>
          simp only [hd] at hh
          cases hh
          exact .inl ⟨f, rfl, hread⟩
        | ok im =>
          simp only [hd] at hh
          split at hh
          · cases hh
          · rename_i b hb
            have hb' : P b.after.registry :=
              hrun _ { (a.after.readFile key.path).after with readSteps := none } _ hread hb
            cases hh
            exact .inr ⟨b.after.registry, im, hb', rfl, rfl⟩

theorem add_stable (hP : Registry.Stable P) (hrun : Keeps P run) (hs : P s.registry) {h : Heard (Except Refusal Unit)}
    (hh : s.add run key delay pid = some h) : P h.after.registry := by
  rcases add_cases hrun hs hh with ⟨e, -, -, ha⟩ | ⟨f, -, ha⟩ | ⟨r, im, hr, -, ha⟩
  · rw [ha]
    exact hs
  · exact ha
  · rw [ha]
    exact hP.install hr key delay pid im

/-- **Whatever is done in between, an addition with an allowed delay is refused for a reason that is about what is added.** -/
theorem add_error {l : Limits} (hrun : Keeps (Registry.Orderly l) run) (hs : s.registry.Orderly l) (hd : delay ≤ l.longestDelay)
    {h : Heard (Except Refusal Unit)} (hh : s.add run key delay pid = some h) {e : Refusal} (he : h.reply = .error e) :
    e.OfAddition := by
  rcases add_cases hrun hs hh with ⟨e', hc, hr, -⟩ | ⟨f, hr, -⟩ | ⟨r, im, -, hr, -⟩
  · rw [hr] at he
    cases he
    exact Registry.checkAdd_error hc (hs.limits_eq ▸ hd)
  · rw [hr] at he
    cases he
    exact .attachFailed f
  · exact Registry.install_error (hr ▸ he)

/-! ## Steps -/

theorem perform_stable (hP : Registry.Stable P) (hrun : Keeps P run) (hs : P s.registry) {order : Order}
    {h : Heard (Except Refusal Nat)} (hh : s.perform run order = some h) : P h.after.registry := by
  cases order with
  | add key delay pid =>
    obtain ⟨a, ha, rfl⟩ := Option.map_eq_some_iff.1 hh
    exact add_stable hP hrun hs ha
  | remove key => cases hh; exact hP.perform hs (.remove key)
  | removeAll => cases hh; exact hP.perform hs .removeAll
  | update key delay pid => cases hh; exact hP.perform hs (.update key delay pid)

/-- **What may end in an addition is run stage by stage, and everything else is done as the registry does it.** -/
theorem operate_cases (run : Runner) (s : Session) (op : Op) :
    (∃ key delay pid, op = .perform (.add key delay pid)) ∨ (∃ c, op = .execute c) ∨
      (∃ name input c, op = .write name input ∧ s.registry.requestNamed name input = .ok (.execute c)) ∨
      s.operate run op = (s.registry.step op).map s.hear := by
  cases op with
  | perform order =>
    cases order with
    | add key delay pid => exact .inl ⟨key, delay, pid, rfl⟩
    | _ => exact .inr (.inr (.inr rfl))
  | execute c => exact .inr (.inl ⟨c, rfl⟩)
  | write name input =>
    cases hq : s.registry.requestNamed name input with
    | error e => exact .inr (.inr (.inr (by simp only [operate, hq])))
    | ok q =>
      cases q with
      | execute c => exact .inr (.inr (.inl ⟨name, input, c, rfl, hq⟩))
      | _ => exact .inr (.inr (.inr (by simp only [operate, hq])))
  | _ => exact .inr (.inr (.inr rfl))

/-- A command that is written is put in the log and then carried out. -/
theorem operate_write {name input : Text} {c : Command} (hq : s.registry.requestNamed name input = .ok (.execute c)) :
    s.operate run (.write name input) =
      ((s.hear ⟨(), s.registry, [.commanded c]⟩).after.perform run (c.order s.registry.panel.defaultDelay)).map fun h =>
        ⟨h.reply.map fun _ => .number input.byteLength, h.after,
          (s.hear ⟨(), s.registry, [.commanded c]⟩).notices ++ h.notices⟩ := by
  simp only [operate, hq]

theorem operate_stable (hP : Registry.Stable P) (hrun : Keeps P run) (hs : P s.registry) {op : Op} {h : Heard Answer}
    (hh : s.operate run op = some h) : P h.after.registry := by
  obtain ⟨key, delay, pid, rfl⟩ | ⟨c, rfl⟩ | ⟨name, input, c, rfl, hq⟩ | hplain := operate_cases run s op
  · obtain ⟨a, ha, rfl⟩ := Option.map_eq_some_iff.1 hh
    exact add_stable hP hrun hs ha
  · obtain ⟨a, ha, rfl⟩ := Option.map_eq_some_iff.1 hh
    exact perform_stable hP hrun hs ha
  · rw [operate_write hq] at hh
    obtain ⟨a, ha, rfl⟩ := Option.map_eq_some_iff.1 hh
    exact perform_stable (s := (s.hear ⟨(), s.registry, [.commanded c]⟩).after) hP hrun hs ha
  · rw [hplain] at hh
    obtain ⟨o, ho, rfl⟩ := Option.map_eq_some_iff.1 hh
    exact hP.step hs ho

theorem fire_stable (hP : Registry.Stable P) (hs : P s.registry) {k : Kept} {pid : UInt32} {h : Heard Answer}
    (hh : s.fire k pid = some h) : P h.after.registry := by
  unfold fire at hh
  split at hh
  · obtain ⟨⟨v, r⟩, hv, rfl⟩ := Option.map_eq_some_iff.1 hh
    exact hP.hit hs hv
  · cases hh
    exact hs

theorem stepWith_stable (hP : Registry.Stable P) (hrun : Keeps P run) (hs : P s.registry) {st : Step} {h : Heard Answer}
    (hh : s.stepWith run st = some h) : P h.after.registry := by
  cases st with
  | op op => exact operate_stable hP hrun hs hh
  | device op =>
    obtain ⟨o, ho, rfl⟩ := Option.map_eq_some_iff.1 hh
    exact hP.stepDevice hs ho
  | fire i pid =>
    cases hk : s.kept[i]? with
    | none =>
      simp only [stepWith, hk] at hh
      cases hh
      exact hs
    | some k =>
      simp only [stepWith, hk] at hh
      exact fire_stable hP hs hh
  | consumer i =>
    cases hk : s.kept[i]? <;> simp only [stepWith, hk] at hh <;> cases hh <;> exact hs
  | _ =>
    cases hh
    exact hs

theorem runNested_stable {step : Session → Step → Option (Heard Answer)}
    (hstep : ∀ s st h, P s.registry → step s st = some h → P h.after.registry) : Keeps P (runNested step) := by
  intro steps
  induction steps with
  | nil =>
    intro s h hs hh
    cases hh
    exact hs
  | cons st rest ih =>
    intro s h hs hh
    unfold runNested at hh
    split at hh
    · cases hh
    · rename_i a ha
      obtain ⟨t, ht, rfl⟩ := Option.map_eq_some_iff.1 hh
      exact ih a.after t (hstep s st a hs ha) ht

/-- **What nothing done to a registry undoes, no step of a session undoes**, whatever is prepared and however deep. -/
theorem step_stable (hP : Registry.Stable P) : ∀ (depth : Nat) {s : Session} {st : Step} {h : Heard Answer}, P s.registry →
    s.step depth st = some h → P h.after.registry
  | 0, _, _, _, hs, hh => stepWith_stable hP (fun _ _ _ hs hh => by cases hh; exact hs) hs hh
  | depth + 1, _, _, _, hs, hh =>
    stepWith_stable hP (runNested_stable fun _ _ _ hs hh => step_stable hP depth hs hh) hs hh

/-! ## Sessions with nothing prepared -/

/-- Nothing is prepared, so nothing comes between the stages of an addition. -/
structure Alone (s : Session) : Prop where
  openFault_eq : s.openFault = none
  readFault_eq : s.readFault = none
  openSteps_eq : s.openSteps = none
  readSteps_eq : s.readSteps = none

/-- A session came to what its registry comes to, and nothing is prepared. -/
structure Follows {α : Type} (o : Outcome α) (h : Heard α) : Prop where
  reply_eq : h.reply = o.reply
  after_eq : h.after.registry = o.after
  alone : h.after.Alone

theorem Follows.map {α β : Type} {o : Outcome α} {h : Heard α} (hf : Follows o h) (f : α → β) : Follows (o.map f) (h.map f) :=
  ⟨congrArg f hf.reply_eq, hf.after_eq, hf.alone⟩

theorem Alone.follows_hear {α : Type} (hs : s.Alone) (o : Outcome α) : Follows o (s.hear o) :=
  ⟨rfl, rfl, ⟨hs.openFault_eq, hs.readFault_eq, hs.openSteps_eq, hs.readSteps_eq⟩⟩

theorem add_of_alone (hrun : ∀ s, run [] s = some ⟨(), s, []⟩) (hs : s.Alone) (key : Key) (delay : UInt64)
    (pid : Option UInt32) : ∃ h, s.add run key delay pid = some h ∧ Follows (s.registry.add key delay pid) h := by
  obtain ⟨registry, kept, openFault, readFault, openSteps, readSteps⟩ := s
  obtain ⟨rfl, rfl, rfl, rfl⟩ := hs
  unfold add Registry.add
  cases hc : registry.checkAdd key delay with
  | error e => exact ⟨_, rfl, rfl, rfl, ⟨rfl, rfl, rfl, rfl⟩⟩
  | ok _ =>
    simp only [openFile]
    obtain ⟨opened, ev⟩ := registry.openFile key.path
    cases opened with
    | error f => exact ⟨_, rfl, rfl, rfl, ⟨rfl, rfl, rfl, rfl⟩⟩
    | ok _ =>
      simp only [hear, Option.getD_none, hrun, readFile]
      obtain ⟨red, ev'⟩ := registry.readFile key.path
      cases red with
      | error f => exact ⟨_, rfl, rfl, rfl, ⟨rfl, rfl, rfl, rfl⟩⟩
      | ok im => exact ⟨_, rfl, rfl, rfl, ⟨rfl, rfl, rfl, rfl⟩⟩

theorem perform_of_alone (hrun : ∀ s, run [] s = some ⟨(), s, []⟩) (hs : s.Alone) (order : Order) :
    ∃ h, s.perform run order = some h ∧ Follows (s.registry.perform order) h := by
  cases order with
  | add key delay pid =>
    obtain ⟨a, ha, hf⟩ := add_of_alone hrun hs key delay pid
    exact ⟨_, Option.map_eq_some_iff.2 ⟨a, ha, rfl⟩, hf.map _⟩
  | _ => exact ⟨_, rfl, hs.follows_hear _⟩

theorem operate_of_alone (hrun : ∀ s, run [] s = some ⟨(), s, []⟩) (hs : s.Alone) {op : Op} {o : Outcome Answer}
    (ho : s.registry.step op = some o) : ∃ h, s.operate run op = some h ∧ Follows o h := by
  obtain ⟨key, delay, pid, rfl⟩ | ⟨c, rfl⟩ | ⟨name, input, c, rfl, hq⟩ | hplain := operate_cases run s op
  · obtain ⟨a, ha, hf⟩ := add_of_alone hrun hs key delay pid
    cases ho
    exact ⟨_, Option.map_eq_some_iff.2 ⟨a, ha, rfl⟩, hf.map _⟩
  · obtain ⟨a, ha, hf⟩ := perform_of_alone hrun hs (c.order s.registry.panel.defaultDelay)
    cases ho
    exact ⟨_, Option.map_eq_some_iff.2 ⟨a, ha, rfl⟩, hf.map _⟩
  · obtain ⟨a, ha, hf⟩ := perform_of_alone (s := (s.hear ⟨(), s.registry, [.commanded c]⟩).after) hrun
      (hs.follows_hear _).alone (c.order s.registry.panel.defaultDelay)
    obtain ⟨hreply, hafter⟩ := Registry.writeNamed_execute hq
    cases ho
    refine ⟨_, (operate_write hq).trans (Option.map_eq_some_iff.2 ⟨a, ha, rfl⟩), ?_, hf.after_eq.trans hafter.symm, hf.alone⟩
    have hanswer : a.reply = (s.registry.execute c).reply := hf.reply_eq
    simp only [Outcome.map, hreply, hanswer]
    cases (s.registry.execute c).reply <;> rfl
  · rw [hplain, ho]
    exact ⟨_, rfl, hs.follows_hear o⟩

/-- **A session with nothing prepared does as its registry does.** -/
theorem step_of_alone (depth : Nat) (hs : s.Alone) {op : Op} {o : Outcome Answer} (ho : s.registry.step op = some o) :
    ∃ h, s.step depth (.op op) = some h ∧ Follows o h := by
  cases depth with
  | zero => exact operate_of_alone (fun _ => rfl) hs ho
  | succ depth => exact operate_of_alone (fun _ => rfl) hs ho

/-! ## Sessions of a new registry -/

open Registry (New Stable Orderly)

/-- A session of a new registry, after any steps, or in the middle of an addition: where the steps prepared for the opening or
the reading of its file are about to run. -/
inductive Reached (l : Limits) : Session → Prop
  | new {r : Registry} (h : New l r) (m : Machine) : Reached l { registry := { r with machine := m } }
  | step {s : Session} {depth : Nat} {st : Step} {h : Heard Answer} (hs : Reached l s) (hh : s.step depth st = some h) :
    Reached l h.after
  | opening {s : Session} (hs : Reached l s) (path : Text) : Reached l { (s.openFile path).after with openSteps := none }
  | reading {s : Session} (hs : Reached l s) (path : Text) : Reached l { (s.readFile path).after with readSteps := none }

namespace Reached

variable {l : Limits}

/-- **What holds of a new registry and is not undone by anything done to it holds of the registry of every session.** -/
theorem of_stable (hP : Stable P) (hnew : ∀ r m, New l r → P { r with machine := m }) (hs : Reached l s) : P s.registry := by
  induction hs with
  | new h m => exact hnew _ m h
  | step _ hh ih => exact step_stable hP _ ih hh
  | opening _ path ih => exact (openFile_registry _ path).symm ▸ ih
  | reading _ path ih => exact (readFile_registry _ path).symm ▸ ih

/-- **The registry of every session is orderly.** -/
theorem orderly (hs : Reached l s) : Orderly l s.registry :=
  hs.of_stable (Registry.stable_orderly l) fun _ m h => h.orderly m

theorem run_of_alone : ∀ (ops : List Op) {s : Session} {r : Registry} {answers : List Answer}, Reached l s → s.Alone →
    s.registry.run ops = some (answers, r) → ∃ s', Reached l s' ∧ s'.Alone ∧ s'.registry = r
  | [], s, _, _, hs, ha, hr => by
    cases hr
    exact ⟨s, hs, ha, rfl⟩
  | op :: ops, s, r, _, hs, ha, hr => by
    obtain ⟨o, rest, ho, hrest, -⟩ := Registry.run_cons_eq_some_iff.1 hr
    obtain ⟨h, hh, hf⟩ := step_of_alone 0 ha ho
    rw [← hf.after_eq] at hrest
    exact run_of_alone ops (hs.step hh) hf.alone hrest

/-- **Every run of requests to a new registry is that of a session.** -/
theorem of_run {r₀ r : Registry} {m : Machine} {ops : List Op} {answers : List Answer} (hnew : New l r₀)
    (hr : { r₀ with machine := m }.run ops = some (answers, r)) : ∃ s, Reached l s ∧ s.Alone ∧ s.registry = r :=
  run_of_alone ops (.new hnew m) ⟨rfl, rfl, rfl, rfl⟩ hr

end Reached
end Session
end DelayProbe
