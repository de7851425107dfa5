import DelayProbe.Proofs.Effects
import DelayProbe.Proofs.Layout
import Mathlib.Algebra.Group.Nat.Defs
import Mathlib.Data.List.Nodup
/-!
# Sound — what holds of every registry that can be reached

Three stores have to agree: the list of slots, the table of armed probes and the marks on the targets.  `Registry.Sound` says
that they do, and that the limits hold.  Probes are numbered upwards, so the table, which is kept by number, lists them in
the order of the slots; `Registry.Numbered` adds how far the numbering has come, which is what makes the next step keep it.
-/
namespace DelayProbe

def Slot.entry (s : Slot) : UInt64 × Probe := (s.handle, ⟨s.target.key.path, s.target.offset⟩)

/-- What stays the same of a slot for as long as its target is listed. -/
def Slot.identity (s : Slot) : UInt64 × Key × Nat × Bool := (s.handle, s.target.key, s.target.offset, s.target.attached)

namespace Table

theorem insert_of_forall_lt {α : Type} (x : UInt64) (v : α) : ∀ t : Table UInt64 α, (∀ e ∈ t, e.1 < x) →
    insert x v t = t ++ [(x, v)]
  | [], _ => rfl
  | (k, w) :: t, h => by
    have hk : k < x := h (k, w) List.mem_cons_self
    have hne : k ≠ x := fun he => UInt64.lt_irrefl x (he ▸ hk)
    unfold insert
    rw [if_neg hne, if_pos hk, insert_of_forall_lt x v t (fun e he => h e (List.mem_cons_of_mem _ he)), List.cons_append]

end Table

namespace Registry

/-- **The limits hold, names are distinct, every listed target is attached, and the armed probes are those of the slots, in
their order.** -/
structure Sound (l : Limits) (r : Registry) : Prop where
  limits_eq : r.limits = l
  length_le : r.slots.length ≤ l.targets
  keys_nodup : (r.slots.map (·.target.key)).Nodup
  delay_le : ∀ s ∈ r.slots, s.target.delay ≤ l.longestDelay
  defaultDelay_le : r.panel.defaultDelay ≤ l.longestDelay
  attached : ∀ s ∈ r.slots, s.target.attached = true
  armed_eq : r.backend.armed = r.slots.map Slot.entry
  handles_lt : (r.slots.map (·.handle)).Pairwise (· < ·)

/-- A sound registry that has armed `n` probes so far. -/
structure Numbered (l : Limits) (n : Nat) (r : Registry) : Prop extends Sound l r where
  nextId_eq : r.backend.nextId.toNat = n + 1
  handle_lt : ∀ s ∈ r.slots, s.handle < r.backend.nextId

namespace Sound

variable {l : Limits} {r : Registry}

/-- The consumer of a slot's probe is the slot itself. -/
theorem find?_handle (h : Sound l r) {s : Slot} (hs : s ∈ r.slots) :
    r.slots.find? (fun x => decide (x.handle = s.handle)) = some s := by
  obtain ⟨as, bs, he⟩ := List.append_of_mem hs
  have hp := h.handles_lt
  rw [he, List.map_append, List.pairwise_append] at hp
  rw [he, List.find?_append, List.find?_eq_none.2, Option.none_or, List.find?_cons_of_pos (by simp)]
  intro x hx hd
  have hlt := hp.2.2 x.handle (List.mem_map_of_mem hx) s.handle (by simp)
  rw [of_decide_eq_true hd] at hlt
  exact UInt64.lt_irrefl _ hlt

theorem isArmed_iff (h : Sound l r) (p : Probe) :
    r.backend.isArmed p = true ↔ ∃ s ∈ r.slots, s.target.key.path = p.path ∧ s.target.offset = p.offset := by
  unfold Simulator.isArmed
  rw [h.armed_eq, List.any_map, List.any_eq_true]
  constructor
  · rintro ⟨s, hs, hd⟩
    have he := of_decide_eq_true hd
    subst he
    exact ⟨s, hs, rfl, rfl⟩
  · rintro ⟨s, hs, h1, h2⟩
    refine ⟨s, hs, decide_eq_true ?_⟩
    cases p
    simp only [Slot.entry] at h1 h2 ⊢
    rw [h1, h2]

end Sound

namespace Numbered

variable {l : Limits} {n : Nat} {r r' : Registry}

/-- **Soundness looks at the identity of the slots only**, at the delays, and at the numbering. -/
theorem congr (h : Numbered l n r) (hl : r'.limits = r.limits)
    (hs : r'.slots.map Slot.identity = r.slots.map Slot.identity)
    (hd : ∀ s ∈ r'.slots, s.target.delay ≤ l.longestDelay) (hp : r'.panel.defaultDelay ≤ l.longestDelay)
    (ha : r'.backend.armed = r.backend.armed) (hn : r'.backend.nextId = r.backend.nextId) : Numbered l n r' := by
  have hmap : ∀ {β : Type} (g : UInt64 × Key × Nat × Bool → β),
      r'.slots.map (fun s => g s.identity) = r.slots.map (fun s => g s.identity) := fun g => by
    have hg := congrArg (List.map g) hs
    rw [List.map_map, List.map_map] at hg
    exact hg
  have hmem : ∀ s ∈ r'.slots, ∃ s₀ ∈ r.slots, s₀.identity = s.identity := fun s hm => by
    have hi : s.identity ∈ r.slots.map Slot.identity := hs ▸ List.mem_map_of_mem hm
    exact List.mem_map.1 hi
  refine ⟨⟨hl.trans h.limits_eq, ?_, ?_, hd, hp, ?_, ?_, ?_⟩, hn ▸ h.nextId_eq, ?_⟩
  · have hlen := congrArg List.length hs
    rw [List.length_map, List.length_map] at hlen
    exact hlen ▸ h.length_le
  · exact (hmap (·.2.1)).symm ▸ h.keys_nodup
  · intro s hm
    obtain ⟨s₀, h₀, he⟩ := hmem s hm
    exact (congrArg (·.2.2.2) he).symm.trans (h.attached s₀ h₀)
  · rw [ha, h.armed_eq]
    exact (hmap fun i => (i.1, (⟨i.2.1.path, i.2.2.1⟩ : Probe))).symm
  · exact (hmap (·.1)).symm ▸ h.handles_lt
  · intro s hm
    obtain ⟨s₀, h₀, he⟩ := hmem s hm
    have hid : s₀.handle = s.handle := congrArg (·.1) he
    rw [hn, ← hid]
    exact h.handle_lt s₀ h₀

theorem of_same_slots (h : Numbered l n r) (hl : r'.limits = r.limits) (hs : r'.slots = r.slots)
    (hp : r'.panel.defaultDelay = r.panel.defaultDelay) (ha : r'.backend.armed = r.backend.armed)
    (hn : r'.backend.nextId = r.backend.nextId) : Numbered l n r' :=
  h.congr hl (by rw [hs]) (by rw [hs]; exact h.delay_le) (hp ▸ h.defaultDelay_le) ha hn

/-! ## One operation -/

theorem enlist (h : Numbered l n r) {t : Target} (hkey : r.slot? t.key = none) (hroom : r.slots.length < l.targets)
    (hdelay : t.delay ≤ l.longestDelay) (hatt : t.attached = true) (hn : n + 1 < 2 ^ 64 - 1) :
    Numbered l (n + 1) (r.enlist t) := by
  have hnext : (r.backend.nextId + 1).toNat = n + 2 := by
    rw [UInt64.toNat_add, h.nextId_eq]
    exact Nat.mod_eq_of_lt (by simp; omega)
  have hlt : r.backend.nextId < r.backend.nextId + 1 := by
    rw [UInt64.lt_iff_toNat_lt, hnext, h.nextId_eq]
    omega
  have hentry : ∀ e ∈ r.backend.armed, e.1 < r.backend.nextId := by
    intro e he
    rw [h.armed_eq] at he
    obtain ⟨s, hs, rfl⟩ := List.mem_map.1 he
    exact h.handle_lt s hs
  refine ⟨⟨h.limits_eq, ?_, ?_, ?_, h.defaultDelay_le, ?_, ?_, ?_⟩, hnext, ?_⟩
  · simpa [Registry.enlist] using Nat.succ_le_of_lt hroom
  · unfold Registry.enlist
    rw [List.map_append]
    exact nodup_names_concat h.keys_nodup hkey
  · intro s hs
    rcases List.mem_append.1 hs with hs | hs
    · exact h.delay_le s hs
    · exact (List.mem_singleton.1 hs) ▸ hdelay
  · intro s hs
    rcases List.mem_append.1 hs with hs | hs
    · exact h.attached s hs
    · exact (List.mem_singleton.1 hs) ▸ hatt
  · unfold Registry.enlist
    rw [Table.insert_of_forall_lt _ _ _ hentry, h.armed_eq, List.map_append]
    rfl
  · unfold Registry.enlist
    rw [List.map_append, List.pairwise_append]
    refine ⟨h.handles_lt, by simp, fun a ha b hb => ?_⟩
    obtain ⟨s, hs, rfl⟩ := List.mem_map.1 ha
    simp only [List.map_cons, List.map_nil, List.mem_singleton] at hb
    exact hb ▸ h.handle_lt s hs
  · intro s hs
    rcases List.mem_append.1 hs with hs | hs
    · exact UInt64.lt_trans (h.handle_lt s hs) hlt
    · exact (List.mem_singleton.1 hs) ▸ hlt

/-- **Taking out a slot and erasing its number leaves the table in step with the slots.** -/
theorem delist (h : Numbered l n r) {key : Key} {s : Slot} (hs : r.slot? key = some s) :
    Numbered l n { r with
      slots := r.slots.eraseP fun s => decide (s.target.key = key), backend := r.backend.disarm s.handle } := by
  have hsub : (r.slots.eraseP fun s => decide (s.target.key = key)).Sublist r.slots := List.eraseP_sublist
  have hmem : ∀ x ∈ r.slots.eraseP (fun s => decide (s.target.key = key)), x ∈ r.slots := fun x hx => hsub.subset hx
  refine ⟨⟨h.limits_eq, Nat.le_trans hsub.length_le h.length_le, h.keys_nodup.sublist (hsub.map _),
    fun x hx => h.delay_le x (hmem x hx), h.defaultDelay_le, fun x hx => h.attached x (hmem x hx), ?_,
    h.handles_lt.sublist (hsub.map _)⟩, h.nextId_eq, fun x hx => h.handle_lt x (hmem x hx)⟩
  obtain ⟨hkey, as, bs, he, has⟩ := List.find?_eq_some_iff_append.1 hs
  have hp := h.handles_lt
  rw [he, List.map_append, List.map_cons, List.pairwise_append, List.pairwise_cons] at hp
  have herase : r.slots.eraseP (fun s => decide (s.target.key = key)) = as ++ bs := by
    rw [he, List.eraseP_append_right _ (fun x hx => by simpa using has x hx)]
    simp only [List.eraseP_cons, hkey, cond_true]
  show Table.erase r.backend.armed s.handle = _
  rw [herase, h.armed_eq, he]
  unfold Table.erase
  rw [List.map_append, List.map_cons, List.filter_append, List.filter_cons_of_neg (by simp [Slot.entry]),
    List.map_append, List.filter_eq_self.2, List.filter_eq_self.2]
  · intro e hm
    obtain ⟨x, hx, rfl⟩ := List.mem_map.1 hm
    have hlt := hp.2.1.1 x.handle (List.mem_map_of_mem hx)
    exact decide_eq_true fun heq => UInt64.lt_irrefl _ ((show x.handle = s.handle from heq) ▸ hlt)
  · intro e hm
    obtain ⟨x, hx, rfl⟩ := List.mem_map.1 hm
    have hlt := hp.2.2 x.handle (List.mem_map_of_mem hx) s.handle List.mem_cons_self
    exact decide_eq_true fun heq => UInt64.lt_irrefl _ ((show x.handle = s.handle from heq) ▸ hlt)

theorem clear (h : Numbered l n r) (on : Bool) :
    Numbered l n { r with
      slots := [], panel := { r.panel with enabled := on }
      backend := r.backend.disarmAll (r.slots.map (·.handle)) } := by
  refine ⟨⟨h.limits_eq, Nat.zero_le _, by simp, fun _ hs => (by cases hs), h.defaultDelay_le, fun _ hs => (by cases hs), ?_,
    by simp⟩, h.nextId_eq, fun _ hs => (by cases hs)⟩
  unfold Simulator.disarmAll
  rw [h.armed_eq]
  refine List.filter_eq_nil_iff.2 (fun e he hd => ?_)
  obtain ⟨s, hs, rfl⟩ := List.mem_map.1 he
  exact of_decide_eq_true hd (List.mem_map_of_mem hs)

theorem modify (h : Numbered l n r) {p : Slot → Bool} {f : Target → Target} {c : Panel} {m : Machine}
    (hf : ∀ s, r.slots.find? p = some s → Slot.identity { s with target := f s.target } = s.identity ∧
      (f s.target).delay ≤ l.longestDelay) (hc : c.defaultDelay = r.panel.defaultDelay) :
    Numbered l n { r with slots := modifyFirst p f r.slots, panel := c, machine := m } := by
  refine h.congr rfl (map_modifyFirst _ p f _ fun s hs => (hf s hs).1) (fun s hs => ?_) (hc ▸ h.defaultDelay_le) rfl rfl
  rcases mem_modifyFirst hs with hs | ⟨s₀, h₀, rfl⟩
  · exact h.delay_le s hs
  · exact (hf s₀ h₀).2

end Numbered

/-! ## Outcomes -/

/-- The outcome leaves a sound registry, numbered on by the probes that were armed. -/
def Keeps {α : Type} (l : Limits) (n : Nat) (o : Outcome α) : Prop :=
  n + Event.armings o.events < 2 ^ 64 - 1 → Numbered l (n + Event.armings o.events) o.after

variable {l : Limits} {n : Nat} {r : Registry}

theorem keeps_of_quiet {α : Type} {o : Outcome α} (he : Event.armings o.events = 0) (h : Numbered l n o.after) :
    Keeps l n o := fun _ => by
  rw [he]
  exact h

theorem add_keeps (h : Numbered l n r) (key : Key) (delay : UInt64) (pid : Option UInt32) :
    Keeps l n (r.add key delay pid) := by
  rcases add_cases r key delay pid with ⟨-, ha, he⟩ | ⟨im, p, hc, -, -, -, harm⟩
  · exact keeps_of_quiet he.armings_eq (ha.symm ▸ h)
  · rcases harm with ⟨f, -, -, ha, he⟩ | ⟨-, -, ha, he⟩
    · exact keeps_of_quiet he (ha ▸ h.of_same_slots rfl rfl rfl rfl rfl)
    · obtain ⟨hd, hk, hr⟩ := checkAdd_eq_ok_iff.1 hc
      rw [h.limits_eq] at hd hr
      intro hn
      rw [he] at hn ⊢
      rw [ha]
      exact h.enlist hk hr hd rfl hn

theorem remove_keeps (h : Numbered l n r) (key : Key) : Keeps l n (r.remove key) := by
  rcases remove_cases r key with ⟨-, ho⟩ | ⟨s, hs, -, he, ha⟩
  · rw [ho]
    exact keeps_of_quiet rfl h
  · exact keeps_of_quiet he.armings_eq (ha ▸ h.delist hs)

theorem removeAll_keeps (h : Numbered l n r) : Keeps l n r.removeAll :=
  keeps_of_quiet (removeAll_quiet r).armings_eq (removeAll_after r ▸ h.clear r.panel.enabled)

theorem shutdown_keeps (h : Numbered l n r) : Keeps l n r.shutdown :=
  keeps_of_quiet (shutdown_quiet r).armings_eq (shutdown_after r ▸ h.clear false)

theorem update_keeps (h : Numbered l n r) (key : Key) (delay : UInt64) (pid : Option UInt32) :
    Keeps l n (r.update key delay pid) := by
  rcases update_cases r key delay pid with ⟨e, ho⟩ | ⟨s, hd, -, -, he, ha⟩
  · rw [ho]
    exact keeps_of_quiet rfl h
  · exact keeps_of_quiet he.armings_eq (ha ▸ h.modify (fun _ _ => ⟨rfl, h.limits_eq ▸ hd⟩) rfl)

theorem setDefaultDelay_keeps (h : Numbered l n r) (delay : UInt64) : Keeps l n (r.setDefaultDelay delay) := by
  rcases setDefaultDelay_cases r delay with ⟨e, ho⟩ | ⟨hd, -, he, ha⟩
  · rw [ho]
    exact keeps_of_quiet rfl h
  · exact keeps_of_quiet he.armings_eq (ha ▸ h.congr rfl rfl h.delay_le (h.limits_eq ▸ hd) rfl rfl)

theorem setEnabled_keeps (h : Numbered l n r) (on : Bool) : Keeps l n (r.setEnabled on) :=
  keeps_of_quiet rfl (h.of_same_slots rfl rfl rfl rfl rfl)

theorem perform_keeps (h : Numbered l n r) : ∀ o : Order, Keeps l n (r.perform o)
  | .add key delay pid => add_keeps h key delay pid
  | .remove key => remove_keeps h key
  | .removeAll => removeAll_keeps h
  | .update key delay pid => update_keeps h key delay pid

theorem carryOut_keeps (h : Numbered l n r) : ∀ q : Request, Keeps l n (r.carryOut q)
  | .setEnabled on => setEnabled_keeps h on
  | .setDefaultDelay d => setDefaultDelay_keeps h d
  | .execute c => perform_keeps h (c.order r.panel.defaultDelay)

theorem writeNamed_keeps (h : Numbered l n r) (name input : Text) : Keeps l n (r.writeNamed name input) := by
  unfold writeNamed
  cases r.requestNamed name input with
  | error e => exact keeps_of_quiet rfl h
  | ok q => exact carryOut_keeps h q

theorem resetStats_numbered (h : Numbered l n r) : Numbered l n r.resetStats := by
  refine h.congr rfl ?_ (fun s hs => ?_) h.defaultDelay_le rfl rfl
  · unfold resetStats
    rw [List.map_map]
    rfl
  · obtain ⟨s₀, h₀, rfl⟩ := List.mem_map.1 hs
    exact h.delay_le s₀ h₀

theorem hit_numbered (h : Numbered l n r) {handle : UInt64} {pid : UInt32} {v : Verdict} {r' : Registry}
    (hh : r.hit handle pid = some (v, r')) : Numbered l n r' := by
  cases hs : r.slots.find? (fun s => decide (s.handle = handle)) with
  | none =>
    rw [hit_unlisted hs] at hh
    cases hh
    exact h
  | some s =>
    rcases (hit_cases hs hh).2 with ⟨-, rfl⟩ | ⟨d, m, -, -, rfl⟩
    · exact h
    · refine h.modify (fun x hx => ?_) rfl
      rw [hs] at hx
      cases hx
      exact ⟨rfl, h.delay_le s (List.mem_of_find?_eq_some hs)⟩

theorem hitAll_numbered (pid : UInt32) : ∀ (hs : List UInt64) {r r' : Registry} {vs : List Verdict}, Numbered l n r →
    hitAll pid hs r = some (vs, r') → Numbered l n r'
  | [], _, _, _, h, hh => by
    cases hh
    exact h
  | x :: hs, _, _, _, h, hh => by
    obtain ⟨v, r₁, rest, hv, hrest, -⟩ := hitAll_cons_eq_some_iff.1 hh
    exact hitAll_numbered pid hs (hit_numbered h hv) hrest

/-- **One request keeps a registry sound.** -/
theorem step_keeps (h : Numbered l n r) {op : Op} {o : Outcome Answer} (ho : r.step op = some o) : Keeps l n o := by
  cases op with
  | perform order =>
    cases order with
    | add key delay pid => cases ho; exact add_keeps h key delay pid
    | remove key => cases ho; exact remove_keeps h key
    | removeAll => cases ho; exact removeAll_keeps h
    | update key delay pid => cases ho; exact update_keeps h key delay pid
  | execute c => cases ho; exact perform_keeps h _
  | write name input => cases ho; exact writeNamed_keeps h name input
  | setEnabled on => cases ho; exact setEnabled_keeps h on
  | setDefaultDelay delay => cases ho; exact setDefaultDelay_keeps h delay
  | resetStats => cases ho; exact keeps_of_quiet rfl (resetStats_numbered h)
  | shutdown => cases ho; exact shutdown_keeps h
  | trigger probe pid =>
    obtain ⟨⟨vs, r'⟩, ht, rfl⟩ := Option.map_eq_some_iff.1 ho
    exact keeps_of_quiet rfl (hitAll_numbered pid _ h ht)
  | read | list | listMatching | lookup | isEmpty | descends | isArmed => cases ho; exact keeps_of_quiet rfl h
  | insertFile | removeFile | setParent | failNextArm | setCpu =>
    cases ho; exact keeps_of_quiet rfl (h.of_same_slots rfl rfl rfl rfl rfl)

/-! ## Runs -/

/-- The number of probes armed by a sequence of requests. -/
def armings (r : Registry) : List Op → Nat
  | [] => 0
  | op :: rest => (r.step op).elim 0 fun o => Event.armings o.events + o.after.armings rest

/-- **A run keeps a registry sound.** -/
theorem run_numbered : ∀ (ops : List Op) {n : Nat} {r r' : Registry} {answers : List Answer}, Numbered l n r →
    r.run ops = some (answers, r') → n + r.armings ops < 2 ^ 64 - 1 → Numbered l (n + r.armings ops) r'
  | [], _, _, _, _, h, hr, _ => by
    cases hr
    exact h
  | op :: ops, n, r, r', answers, h, hr, hn => by
    unfold run at hr
    unfold armings at hn ⊢
    obtain ⟨o, ho, hrest⟩ := Option.bind_eq_some_iff.1 hr
    obtain ⟨⟨as, r₂⟩, hrun, he⟩ := Option.map_eq_some_iff.1 hrest
    cases he
    rw [ho, Option.elim_some, ← Nat.add_assoc] at hn ⊢
    -- the numbers used up by this request are part of those used up by the run, so they still suffice
    exact run_numbered ops (step_keeps h ho (Nat.lt_of_le_of_lt (Nat.le_add_right _ _) hn)) hrun hn

/-- A registry as it is built: under the limits it has when none are named, or under limits that leave room. -/
inductive New : Limits → Registry → Prop
  | standard : New {} (fresh {})
  | withLimits {l : Limits} {r : Registry} (h : Registry.withLimits l = .ok r) : New l r

theorem New.numbered (hnew : New l r) (m : Machine) : Numbered l 0 { r with machine := m } := by
  have hfresh : ∀ l : Limits, l.defaultDelay ≤ l.longestDelay → Numbered l 0 { fresh l with machine := m } := fun l hl =>
    ⟨⟨rfl, Nat.zero_le _, List.nodup_nil, fun _ hs => (by cases hs), hl, fun _ hs => (by cases hs), rfl, List.Pairwise.nil⟩,
      rfl, fun _ hs => (by cases hs)⟩
  cases hnew with
  | standard => exact hfresh {} (by decide)
  | withLimits h =>
    unfold Registry.withLimits Limits.check at h
    split at h
    · cases h
    · split at h
      · cases h
      · rename_i hlt
        cases h
        exact hfresh l (UInt64.not_lt.1 hlt)

/-- **Whatever is done to a new registry, it stays sound** for as long as numbers for probes last: the limits hold, names are
distinct, every listed target is attached, and there is one armed probe for each, in the same order, with its target's path
and offset, that acts on that target.  So a place is armed exactly when a listed target is there. -/
theorem run_sound {r₀ : Registry} {m : Machine} {ops : List Op} {answers : List Answer} (hnew : New l r₀)
    (hrun : { r₀ with machine := m }.run ops = some (answers, r))
    (hfew : { r₀ with machine := m }.armings ops < 2 ^ 64 - 1) :
    Sound l r ∧ r.backend.armed.length = r.slots.length ∧
      (∀ p : Probe, r.backend.isArmed p = true ↔
        ∃ s ∈ r.slots, s.target.key.path = p.path ∧ s.target.offset = p.offset) ∧
      ∀ s ∈ r.slots, r.slots.find? (fun x => decide (x.handle = s.handle)) = some s := by
  have h := (run_numbered ops (hnew.numbered m) hrun (by rwa [Nat.zero_add])).toSound
  refine ⟨h, ?_, h.isArmed_iff, fun s hs => h.find?_handle hs⟩
  rw [h.armed_eq, List.length_map]

/-- A file, a target in it, and once more the same target. -/
def oneListed : List Op :=
  [.insertFile ['/'] (Blueprint.small.image .little), .perform (.add ⟨['/'], ['f']⟩ 5 none),
    .perform (.add ⟨['/'], ['f']⟩ 7 none)]

theorem run_sound_oneListed :
    ∃ answers r, (fresh {}).run oneListed = some (answers, r) ∧ r.slots.length = 1 ∧ Sound {} r := by
  have hrun : ((fresh {}).run oneListed).map (fun p => p.2.slots.length) = some 1 ∧
      (fresh {}).armings oneListed < 2 ^ 64 - 1 := by decide +kernel
  obtain ⟨⟨answers, r⟩, hr, hlen⟩ := Option.map_eq_some_iff.1 hrun.1
  exact ⟨answers, r, hr, hlen, (run_sound (m := {}) .standard hr hrun.2).1⟩

end Registry
end DelayProbe
