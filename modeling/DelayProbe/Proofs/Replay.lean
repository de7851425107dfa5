import DelayProbe.Proofs.Roll
import DelayProbe.Proofs.Sound
/-!
# Replay — a registry keeps the roll of its history

The list of a registry is the roll of what was done to it (`Registry.run_roll`).  Every request changes both in the same way
(`Registry.step_roll`), which rests on names being distinct, since the registry acts on the first slot of a name.
-/
namespace DelayProbe

namespace Simulator

theorem file?_insertFile (s : Simulator) (path : Text) (im : Image) :
    (s.insertFile path im).file? = fun p => if p = path then some im else s.file? p := by
  funext p
  by_cases h : p = path
  · rw [if_pos h, h]
    exact Table.get?_insert_self path im s.files
  · rw [if_neg h]
    exact Table.get?_insert_ne im (Ne.symm h) s.files

theorem file?_removeFile (s : Simulator) (path : Text) :
    (s.removeFile path).file? = fun p => if p = path then none else s.file? p := by
  funext p
  by_cases h : p = path
  · rw [if_pos h, h]
    exact Table.get?_erase_self path s.files
  · rw [if_neg h]
    exact Table.get?_erase_ne (Ne.symm h) s.files

end Simulator

namespace Registry

/-- What a registry shows of itself, as a roll. -/
def roll (r : Registry) : Roll := ⟨r.limits, r.panel.defaultDelay, r.backend.file?, r.list⟩

def Distinct (r : Registry) : Prop := (r.slots.map (·.target.key)).Nodup

/-! ## The first slot of a name is the only one -/

theorem key_ne_of_nodup {x y : Slot} {ss : List Slot} (hn : ((x :: ss).map (·.target.key)).Nodup) (hy : y ∈ ss) :
    y.target.key ≠ x.target.key := fun he => by
  rw [List.map_cons, List.nodup_cons] at hn
  exact hn.1 (he ▸ List.mem_map_of_mem hy)

theorem modifyFirst_eq_map {p : Slot → Bool} {f : Target → Target} {s : Slot} : ∀ {ss : List Slot},
    (ss.map (·.target.key)).Nodup → ss.find? p = some s →
      modifyFirst p f ss = ss.map fun x => if x.target.key = s.target.key then { x with target := f x.target } else x
  | [], _, hs => by cases hs
  | x :: ss, hn, hs => by
    rw [modifyFirst, List.map_cons]
    by_cases hp : p x = true
    · rw [List.find?_cons_of_pos hp] at hs
      cases hs
      have htail : (ss.map fun y => if y.target.key = s.target.key then { y with target := f y.target } else y) = ss :=
        (List.map_congr_left fun y hy => if_neg (key_ne_of_nodup hn hy)).trans (List.map_id ss)
      rw [if_pos hp, if_pos rfl, htail]
    · rw [List.find?_cons_of_neg hp] at hs
      have hne := (key_ne_of_nodup hn (List.mem_of_find?_eq_some hs)).symm
      rw [if_neg hp, if_neg hne, modifyFirst_eq_map (List.nodup_cons.1 hn).2 hs]

theorem modifyFirst_congr {p : Slot → Bool} {f g : Target → Target} {s : Slot} : ∀ {ss : List Slot},
    ss.find? p = some s → f s.target = g s.target → modifyFirst p f ss = modifyFirst p g ss
  | [], hs, _ => by cases hs
  | x :: ss, hs, h => by
    rw [modifyFirst, modifyFirst]
    by_cases hp : p x = true
    · rw [List.find?_cons_of_pos hp] at hs
      cases hs
      rw [if_pos hp, if_pos hp, h]
    · rw [List.find?_cons_of_neg hp] at hs
      rw [if_neg hp, if_neg hp, modifyFirst_congr hs h]

theorem eraseP_eq_filter {p : Slot → Bool} {s : Slot} : ∀ {ss : List Slot},
    (ss.map (·.target.key)).Nodup → ss.find? p = some s →
      ss.eraseP p = ss.filter fun x => decide (x.target.key ≠ s.target.key)
  | [], _, hs => by cases hs
  | x :: ss, hn, hs => by
    by_cases hp : p x = true
    · rw [List.find?_cons_of_pos hp] at hs
      cases hs
      have htail : ss.filter (fun y => decide (y.target.key ≠ s.target.key)) = ss :=
        List.filter_eq_self.2 fun y hy => decide_eq_true (key_ne_of_nodup hn hy)
      rw [List.eraseP_cons_of_pos hp, List.filter_cons_of_neg (by simp), htail]
    · rw [List.find?_cons_of_neg hp] at hs
      have hne := (key_ne_of_nodup hn (List.mem_of_find?_eq_some hs)).symm
      rw [List.eraseP_cons_of_neg hp, List.filter_cons_of_pos (by simpa using hne),
        eraseP_eq_filter (List.nodup_cons.1 hn).2 hs]

/-! ## Orders and requests -/

variable {r : Registry}

theorem add_roll (key : Key) (delay : UInt64) (pid : Option UInt32) :
    ((∃ e, (r.add key delay pid).reply = .error e) ∧ (r.add key delay pid).after.roll = r.roll) ∨
      (∃ a, (r.add key delay pid).reply = .ok a) ∧ (r.add key delay pid).after.roll = r.roll.obey (.add key delay pid) := by
  rcases add_cases r key delay pid with ⟨he, ha, -⟩ | ⟨im, place, -, hf, hp, -, harm⟩
  · exact .inl ⟨he, by rw [ha]⟩
  · rcases harm with ⟨f, -, he, ha, -⟩ | ⟨-, hr, ha, -⟩
    · exact .inl ⟨⟨_, he⟩, by rw [ha]; rfl⟩
    · refine .inr ⟨⟨_, hr⟩, ?_⟩
      have hget : r.roll.files key.path = some im := hf
      rw [ha]
      simp only [Roll.obey, hget, hp, TargetInfo.filterAfter_none]
      simp only [roll, enlist, list, List.map_append, List.map_cons, List.map_nil]
      rfl

theorem key_of_slot? {key : Key} {s : Slot} (hs : r.slot? key = some s) : s.target.key = key := by
  unfold slot? at hs
  simpa using List.find?_some hs

theorem retune_info (delay : UInt64) (pid : Option UInt32) (t : Target) :
    (retune delay pid t).info = t.info.retuned delay pid := by cases pid <;> rfl

theorem list_remove (hd : r.Distinct) {key : Key} {s : Slot} (hs : r.slot? key = some s) :
    (r.slots.eraseP fun s => decide (s.target.key = key)).map (·.target.info) =
      r.list.filter fun i => decide (i.key ≠ key) := by
  rw [eraseP_eq_filter hd hs, list, List.filter_map, key_of_slot? hs]
  rfl

theorem list_modifyFirst (hd : r.Distinct) {p : Slot → Bool} {s : Slot} (hs : r.slots.find? p = some s)
    {f : Target → Target} {g : TargetInfo → TargetInfo} (hfg : ∀ t : Target, (f t).info = g t.info) :
    (modifyFirst p f r.slots).map (·.target.info) = Roll.change s.target.key g r.list := by
  rw [modifyFirst_eq_map hd hs, list, Roll.change, List.map_map, List.map_map]
  refine List.map_congr_left fun x _ => ?_
  by_cases hx : x.target.key = s.target.key
  · have hi : x.target.info.key = s.target.key := hx
    simp only [Function.comp_apply, hx, hi, if_true, hfg]
  · have hi : x.target.info.key ≠ s.target.key := hx
    simp only [Function.comp_apply, hx, hi, if_false]

/-- **An order is refused and leaves the list as it is, or changes it as it says.** -/
theorem perform_roll (hd : r.Distinct) (order : Order) :
    ((∃ e, (r.perform order).reply = .error e) ∧ (r.perform order).after.roll = r.roll) ∨
      (∃ n, (r.perform order).reply = .ok n) ∧ (r.perform order).after.roll = r.roll.obey order := by
  cases order with
  | add key delay pid =>
    rcases add_roll (r := r) key delay pid with ⟨⟨e, he⟩, ha⟩ | ⟨⟨a, hr⟩, ha⟩
    · exact .inl ⟨⟨e, by rw [perform, Outcome.map, he]; rfl⟩, ha⟩
    · exact .inr ⟨⟨1, by rw [perform, Outcome.map, hr]; rfl⟩, ha⟩
  | remove key =>
    rcases remove_cases r key with ⟨-, ho⟩ | ⟨s, hs, hr, -, ha⟩
    · exact .inl (by rw [perform, ho]; exact ⟨⟨_, rfl⟩, rfl⟩)
    · refine .inr ⟨⟨1, by rw [perform, Outcome.map, hr]; rfl⟩, ?_⟩
      have hl := list_remove hd hs
      show (r.remove key).after.roll = _
      rw [ha, Roll.obey]
      simp only [roll, list] at hl ⊢
      rw [hl]
      rfl
  | removeAll =>
    refine .inr ⟨⟨_, rfl⟩, ?_⟩
    show r.removeAll.after.roll = _
    rw [removeAll_after]
    rfl
  | update key delay pid =>
    rcases update_cases r key delay pid with ⟨e, ho⟩ | ⟨s, -, hs, hr, -, ha⟩
    · exact .inl (by rw [perform, ho]; exact ⟨⟨_, rfl⟩, rfl⟩)
    · refine .inr ⟨⟨1, by rw [perform, Outcome.map, hr]; rfl⟩, ?_⟩
      have hk := key_of_slot? hs
      have hl := list_modifyFirst hd hs (g := (·.retuned delay pid)) (retune_info delay pid)
      show (r.update key delay pid).after.roll = _
      rw [ha, Roll.obey, ← hk, roll, list]
      rw [hk] at hl ⊢
      rw [hl]
      rfl

theorem carryOut_roll (hd : r.Distinct) (q : Request) :
    ((∃ e, (r.carryOut q).reply = .error e) ∧ (r.carryOut q).after.roll = r.roll) ∨
      (∃ a, (r.carryOut q).reply = .ok a) ∧ (r.carryOut q).after.roll = r.roll.grant q := by
  cases q with
  | setEnabled on => exact .inr ⟨⟨(), rfl⟩, rfl⟩
  | setDefaultDelay delay =>
    rcases setDefaultDelay_cases r delay with ⟨e, ho⟩ | ⟨-, hr, -, ha⟩
    · exact .inl (by rw [carryOut, ho]; exact ⟨⟨e, rfl⟩, rfl⟩)
    · exact .inr ⟨⟨(), hr⟩, by rw [carryOut, ha]; rfl⟩
  | execute c =>
    rcases perform_roll hd (c.order r.panel.defaultDelay) with ⟨⟨e, he⟩, ha⟩ | ⟨⟨n, hr⟩, ha⟩
    · exact .inl ⟨⟨e, by rw [carryOut, execute, he]; rfl⟩, ha⟩
    · refine .inr ⟨⟨(), by rw [carryOut, execute, hr]; rfl⟩, ?_⟩
      rw [Roll.grant, Roll.command_eq]
      exact ha

/-! ## Hits -/

theorem hit_identity {handle : UInt64} {pid : UInt32} {v : Verdict} {r' : Registry} (h : r.hit handle pid = some (v, r')) :
    r'.slots.map Slot.identity = r.slots.map Slot.identity := by
  cases hs : r.slots.find? (fun s => decide (s.handle = handle)) with
  | none =>
    rw [hit_unlisted hs] at h
    cases h
    rfl
  | some s =>
    rcases (hit_cases hs h).2 with ⟨-, rfl⟩ | ⟨d, m, -, -, rfl⟩
    · rfl
    · refine map_modifyFirst _ _ _ _ fun x hx => ?_
      rw [hs] at hx
      cases hx
      rfl

theorem names_of_identity {r' : Registry} (h : r'.slots.map Slot.identity = r.slots.map Slot.identity) :
    r'.slots.map (·.target.key) = r.slots.map (·.target.key) := by
  have hk := congrArg (List.map (·.2.1)) h
  rwa [List.map_map, List.map_map] at hk

theorem distinct_of_identity {r' : Registry} (h : r'.slots.map Slot.identity = r.slots.map Slot.identity) (hd : r.Distinct) :
    r'.Distinct := by
  unfold Distinct
  rwa [names_of_identity h]

theorem nameAt?_of_identity {r' : Registry} (h : r'.slots.map Slot.identity = r.slots.map Slot.identity) (handle : UInt64) :
    r'.nameAt? handle = r.nameAt? handle := by
  have hn : ∀ r : Registry, r.nameAt? handle =
      ((r.slots.map Slot.identity).find? fun i => decide (i.1 = handle)).map (·.2.1) := fun r => by
    rw [List.find?_map, Option.map_map]
    rfl
  rw [hn, hn, h]

theorem byName_of_identity {r' : Registry} (h : r'.slots.map Slot.identity = r.slots.map Slot.identity) (handles : List UInt64)
    (vs : List Verdict) : r'.byName handles vs = r.byName handles vs := by
  unfold byName
  simp only [nameAt?_of_identity h]

/-- What one probe says has the name of its target, if it has one. -/
theorem byName_one (r : Registry) (handle : UInt64) (v : Verdict) :
    r.byName [handle] [v] = ((r.nameAt? handle).map (·, v)).toList := by
  unfold byName
  cases h : r.nameAt? handle <;> simp [h]

theorem hitsAmong_byName_cons (handle : UInt64) (handles : List UInt64) (v : Verdict) (vs : List Verdict) :
    hitsAmong (r.byName (handle :: handles) (v :: vs)) =
      hitsAmong (r.byName [handle] [v]) ++ hitsAmong (r.byName handles vs) := by
  unfold hitsAmong byName
  rw [← List.filterMap_append, ← List.filterMap_append]
  rfl

theorem hit_roll (hd : r.Distinct) {handle : UInt64} {pid : UInt32} {v : Verdict} {r' : Registry}
    (h : r.hit handle pid = some (v, r')) :
    r'.roll = { r.roll with entries := Roll.count r.list (hitsAmong (r.byName [handle] [v])) } := by
  cases hs : r.slots.find? (fun s => decide (s.handle = handle)) with
  | none =>
    rw [hit_unlisted hs] at h
    cases h
    simp [byName_one, nameAt?, hs, hitsAmong, Roll.count, roll]
  | some s =>
    have hname : r.byName [handle] [v] = [(s.target.key, v)] := by simp [byName_one, nameAt?, hs]
    rw [hname]
    rcases (hit_cases hs h).2 with ⟨hv, rfl⟩ | ⟨d, m, rfl, -, rfl⟩
    · have hnone : v.delay? = none := by
        cases v with
        | delayed ns => exact absurd rfl (hv ns)
        | _ => rfl
      simp [hitsAmong, hnone, Roll.count, roll]
    · have hl := list_modifyFirst hd hs (f := (·.recordHit d)) (g := (·.counted d)) fun t => rfl
      have hc : modifyFirst (fun x => decide (x.handle = handle)) (fun _ => s.target.recordHit d) r.slots =
          modifyFirst (fun x => decide (x.handle = handle)) (·.recordHit d) r.slots := modifyFirst_congr hs rfl
      simp only [roll, list, hc, hl]
      rfl

theorem hitAll_roll (pid : UInt32) : ∀ (handles : List UInt64) {r r' : Registry} {vs : List Verdict}, r.Distinct →
    hitAll pid handles r = some (vs, r') →
      r'.roll = { r.roll with entries := Roll.count r.list (hitsAmong (r.byName handles vs)) } ∧
        r'.slots.map Slot.identity = r.slots.map Slot.identity
  | [], _, _, _, _, h => by
    cases h
    exact ⟨rfl, rfl⟩
  | handle :: handles, r, r', vs, hd, h => by
    obtain ⟨v, r₁, rest, hv, hrest, rfl⟩ := hitAll_cons_eq_some_iff.1 h
    have hid := hit_identity hv
    have hroll := hit_roll hd hv
    obtain ⟨ih, ihid⟩ := hitAll_roll pid handles (distinct_of_identity hid hd) hrest
    -- a hit changes neither names nor numbers, so what the later probes say has the names it has in `r`
    have hnames : r₁.byName handles rest = r.byName handles rest := byName_of_identity hid _ _
    have hlist : r₁.list = Roll.count r.list (hitsAmong (r.byName [handle] [v])) := congrArg (·.entries) hroll
    refine ⟨?_, ihid.trans hid⟩
    rw [ih, hroll, hlist, hnames, hitsAmong_byName_cons handle handles, Roll.count_append]

/-! ## Calls -/

/-- **A call changes the roll of a registry as `Roll.note` says.** -/
theorem step_roll (hd : r.Distinct) {op : Op} {o : Outcome Answer} (ho : r.step op = some o) :
    o.after.roll = r.roll.note (r.call op o) := by
  have requested : ∀ {q : Request}, op.request? r.limits = some q → o.after.roll = r.roll.note (r.call op o) := fun {q} hq => by
    have h := step_request hq ho
    rw [h.after_eq]
    rcases carryOut_roll hd q with ⟨⟨e, he⟩, ha⟩ | ⟨⟨a, hr⟩, ha⟩
    · rw [ha, Roll.note_of_error ((h.error_iff e).2 he)]
    · obtain ⟨a', hr'⟩ := h.exists_ok hr
      rw [ha, Roll.note_of_request hr' hq]
  cases op with
  | perform order =>
    have h := step_perform ho
    rw [h.after_eq]
    rcases perform_roll hd order with ⟨⟨e, he⟩, ha⟩ | ⟨⟨n, hr⟩, ha⟩
    · rw [ha, Roll.note_of_error ((h.error_iff e).2 he)]
    · obtain ⟨a', hr'⟩ := h.exists_ok hr
      rw [ha]
      simp only [Roll.note, call, hr']
  | execute c => exact requested rfl
  | setEnabled on => exact requested rfl
  | setDefaultDelay delay => exact requested rfl
  | write name input =>
    rcases step_write ho with ⟨q, hq, -⟩ | ⟨-, e, rfl⟩
    · exact requested hq
    · exact (Roll.note_of_error rfl).symm
  | shutdown =>
    cases ho
    exact congrArg roll (shutdown_after r)
  | resetStats =>
    cases ho
    simp only [roll, list, resetStats, silently, List.map_map]
    simp only [Roll.note, call, List.map_map]
    rfl
  | trigger probe pid =>
    obtain ⟨⟨vs, r'⟩, ht, rfl⟩ := Option.map_eq_some_iff.1 ho
    exact (hitAll_roll pid _ hd ht).1
  | insertFile path im =>
    cases ho
    exact congrArg (Roll.mk r.limits r.panel.defaultDelay · r.list) (r.backend.file?_insertFile path im)
  | removeFile path =>
    cases ho
    exact congrArg (Roll.mk r.limits r.panel.defaultDelay · r.list) (r.backend.file?_removeFile path)
  | read name =>
    cases ho
    cases r.readNamed name <;> simp [Roll.note, call, answer, Except.map]
  | _ =>
    cases ho
    rfl

/-- What a call lists was let in: its delay is allowed, its name is new, and there is room. -/
theorem step_admits {op : Op} {o : Outcome Answer} {key : Key} (ho : r.step op = some o)
    (hk : (r.call op o).added? r.limits = some key) : ∃ delay, r.checkAdd key delay = .ok () := by
  cases ha : o.reply with
  | error e => simp [Call.added?, call, ha] at hk
  | ok a =>
    have hadded : op.added? r.limits = some key := by simpa [Call.added?, call, ha] using hk
    rw [Op.added?_eq _ _ r.panel.defaultDelay, Option.bind_eq_some_iff] at hadded
    obtain ⟨order, hord, hkey⟩ := hadded
    have h := step_order hord ho
    cases order with
    | add key' delay pid =>
      cases hkey
      rcases add_cases r key delay pid with ⟨⟨e, he⟩, -⟩ | ⟨im, place, hc, -⟩
      · rw [(h.error_iff e).2 ((Outcome.alike_map (fun _ => 1) (r.add key delay pid)).error_iff e |>.2 he)] at ha
        cases ha
      · exact ⟨delay, hc⟩
    | _ => cases hkey

theorem step_fresh {op : Op} {o : Outcome Answer} {key : Key} (ho : r.step op = some o)
    (hk : (r.call op o).added? r.limits = some key) : r.slot? key = none := by
  obtain ⟨delay, hc⟩ := step_admits ho hk
  exact (checkAdd_eq_ok_iff.1 hc).2.1

theorem names_roll (r : Registry) : r.roll.names = r.slots.map (·.target.key) := List.map_map

theorem step_distinct (hd : r.Distinct) {op : Op} {o : Outcome Answer} (ho : r.step op = some o) : o.after.Distinct := by
  have hn := names_roll o.after
  rw [step_roll hd ho] at hn
  unfold Distinct
  rw [← hn]
  rcases Roll.names_note r.roll (r.call op o) with h | ⟨key, hk, h⟩
  · rw [names_roll] at h
    exact hd.sublist h
  · rw [h, names_roll]
    exact nodup_names_concat hd (step_fresh ho hk)

theorem step_limits (hd : r.Distinct) {op : Op} {o : Outcome Answer} (ho : r.step op = some o) : o.after.limits = r.limits := by
  have h : o.after.roll.limits = r.roll.limits := step_roll hd ho ▸ Roll.limits_note _ _
  exact h

/-- **What holds of the listed names and of the name that a request may list holds of the names after it.** -/
theorem step_names {P : Key → Prop} (hd : r.Distinct) (h : ∀ k ∈ r.roll.names, P k) {op : Op} {o : Outcome Answer}
    (hop : ∀ key, op.added? r.limits = some key → P key) (ho : r.step op = some o) : ∀ k ∈ o.after.roll.names, P k := by
  intro k hk
  rw [step_roll hd ho] at hk
  rcases Roll.names_note r.roll (r.call op o) with hsub | ⟨key, hadded, hnames⟩
  · exact h k (hsub.subset hk)
  · rw [hnames] at hk
    rcases List.mem_append.1 hk with hk | hk
    · exact h k hk
    · rw [List.mem_singleton.1 hk]
      refine hop key ?_
      have hadded : (r.call op o).added? r.limits = some key := hadded
      unfold Call.added? at hadded
      split at hadded
      · cases hadded
      · exact hadded

/-- No more targets are listed than the limits allow. -/
def Roomy (r : Registry) : Prop := r.slots.length ≤ r.limits.targets

theorem step_roomy (hd : r.Distinct) (h : r.Roomy) {op : Op} {o : Outcome Answer} (ho : r.step op = some o) :
    o.after.Roomy := by
  have hlength : ∀ r : Registry, r.roll.names.length = r.slots.length := fun r => by rw [names_roll, List.length_map]
  unfold Roomy
  rw [← hlength, step_limits hd ho, step_roll hd ho]
  rcases Roll.names_note r.roll (r.call op o) with hsub | ⟨key, hk, hnames⟩
  · exact Nat.le_trans hsub.length_le ((hlength r).symm ▸ h)
  · obtain ⟨delay, hc⟩ := step_admits ho hk
    rw [hnames, List.length_append, List.length_singleton, hlength]
    exact (checkAdd_eq_ok_iff.1 hc).2.2

/-! ## Runs -/

/-- **The roll of a registry after a run is what its history makes of the roll it had.** -/
theorem run_roll {ops : List Op} {answers : List Answer} {r' : Registry} (hd : r.Distinct)
    (hr : r.run ops = some (answers, r')) : r'.Distinct ∧ r'.roll = (r.calls ops).foldl Roll.note r.roll :=
  run_foldl (R := fun r b => r.Distinct ∧ r.roll = b)
    (fun h ho => ⟨step_distinct h.1 ho, h.2 ▸ step_roll h.1 ho⟩) ops ⟨hd, rfl⟩ hr

/-- **What holds of every name that the requests of a run may list holds of every name on the list after it.** -/
theorem run_names {P : Key → Prop} : ∀ (ops : List Op) {r r' : Registry} {answers : List Answer}, r.Distinct →
    (∀ k ∈ r.roll.names, P k) → (∀ op ∈ ops, ∀ key, op.added? r.limits = some key → P key) →
      r.run ops = some (answers, r') → r'.limits = r.limits ∧ ∀ k ∈ r'.roll.names, P k
  | [], _, _, _, _, h, _, hr => by
    cases hr
    exact ⟨rfl, h⟩
  | op :: ops, r, r', _, hd, h, hops, hr => by
    obtain ⟨o, rest, ho, hrest, -⟩ := run_cons_eq_some_iff.1 hr
    have hlimits := step_limits hd ho
    have hnames := step_names hd h (hops op List.mem_cons_self) ho
    obtain ⟨hlimits', hnames'⟩ := run_names ops (step_distinct hd ho) hnames
      (fun x hx => hlimits ▸ hops x (List.mem_cons_of_mem _ hx)) hrest
    exact ⟨hlimits'.trans hlimits, hnames'⟩

theorem New.eq_fresh {l : Limits} (hnew : New l r) : r = fresh l := by
  cases hnew with
  | standard => rfl
  | withLimits h =>
    unfold Registry.withLimits at h
    cases hc : l.check with
    | error e => rw [hc] at h; cases h
    | ok _ => rw [hc] at h; cases h; rfl

theorem New.distinct {l : Limits} (hnew : New l r) (m : Machine) : { r with machine := m }.Distinct := by
  rw [hnew.eq_fresh]
  exact List.nodup_nil

theorem New.run_names {l : Limits} {r₀ : Registry} {m : Machine} {P : Key → Prop} {ops : List Op} {answers : List Answer}
    (hnew : New l r₀) (hops : ∀ op ∈ ops, ∀ key, op.added? l = some key → P key)
    (hrun : { r₀ with machine := m }.run ops = some (answers, r)) : r.limits = l ∧ r.Distinct ∧ ∀ k ∈ r.roll.names, P k := by
  have hd := hnew.distinct m
  obtain rfl := hnew.eq_fresh
  obtain ⟨hlimits, hnames⟩ := Registry.run_names ops hd (fun _ hk => (by cases hk)) hops hrun
  exact ⟨hlimits, (run_roll hd hrun).1, hnames⟩

namespace Sound

variable {l : Limits}

theorem armedAt_eq (h : Sound l r) (probe : Probe) :
    r.backend.armedAt probe = (r.slots.filter fun s => decide (s.target.info.probe = probe)).map (·.handle) := by
  unfold Simulator.armedAt
  rw [h.armed_eq, List.filter_map, List.map_map]
  rfl

theorem byName_eq (h : Sound l r) : ∀ (ss : List Slot), (∀ s ∈ ss, s ∈ r.slots) → ∀ vs : List Verdict,
    r.byName (ss.map (·.handle)) vs = (ss.map (·.target.key)).zip vs
  | [], _, _ => rfl
  | _ :: _, _, [] => rfl
  | s :: ss, hss, v :: vs => by
    have hname : r.nameAt? s.handle = some s.target.key := by
      rw [nameAt?, h.find?_handle (hss s List.mem_cons_self)]
      rfl
    have ih := h.byName_eq ss (fun x hx => hss x (List.mem_cons_of_mem _ hx)) vs
    unfold byName at ih ⊢
    simp only [List.map_cons, List.zip_cons_cons, List.filterMap_cons, hname, Option.map_some, ih]

/-- **What a place says comes from the listed targets there, in the order of the list.** -/
theorem told_eq (h : Sound l r) (op : Op) (a : Answer) : r.told op a = r.roll.told op a := by
  cases op with
  | trigger probe pid =>
    cases a with
    | error e => rfl
    | ok reply =>
      cases reply with
      | verdicts vs =>
        rw [told, h.armedAt_eq, h.byName_eq _ fun s hs => (List.mem_filter.1 hs).1]
        simp only [Roll.told, roll, list, List.filter_map, List.map_map]
        rfl
      | _ => rfl
  | _ => rfl

end Sound

/-- **For as long as numbers for probes last, requests and answers are all that the roll needs.** -/
theorem run_replay {l : Limits} : ∀ (ops : List Op) {n : Nat} {r r' : Registry} {answers : List Answer}, Numbered l n r →
    r.run ops = some (answers, r') → n + r.armings ops < 2 ^ 64 - 1 →
      (r.calls ops).foldl Roll.note r.roll = (ops.zip answers).foldl Roll.replay r.roll
  | [], _, _, _, _, _, hr, _ => by
    cases hr
    rfl
  | op :: ops, n, r, r', answers, h, hr, hn => by
    obtain ⟨o, rest, ho, hrest, rfl⟩ := run_cons_eq_some_iff.1 hr
    unfold armings at hn
    rw [ho, Option.elim_some, ← Nat.add_assoc] at hn
    have hnext := step_keeps h ho (Nat.lt_of_le_of_lt (Nat.le_add_right _ _) hn)
    have hcall : r.roll.note (r.call op o) = r.roll.replay (op, o.reply) := by
      unfold call
      rw [h.toSound.told_eq]
      rfl
    have ih := run_replay ops hnext hrest hn
    rw [step_roll h.keys_nodup ho] at ih
    rw [calls_cons ho, List.zip_cons_cons, List.foldl_cons, List.foldl_cons, ← hcall]
    exact ih

/-- **The list of a registry is the roll of its history**, whatever was done to it: it is replayed from the requests and their
answers, and from which listed targets told what to passing processes.  Look-ups, the number of targets and what a removal of all
reports agree with it.  For as long as numbers for probes last, the requests and their answers alone will do: what a place tells
comes from the entries there, each once and in their order. -/
theorem list_eq_replayed {l : Limits} {r₀ : Registry} {m : Machine} {ops : List Op} {answers : List Answer} (hnew : New l r₀)
    (hrun : { r₀ with machine := m }.run ops = some (answers, r)) :
    let history := { r₀ with machine := m }.calls ops
    let b := history.foldl Roll.note (Roll.start l)
    (history.map (·.op) = ops ∧ history.map (·.answer) = answers) ∧ r.list = b.entries ∧
      (∀ key, r.lookup key = b.entries.find? fun i => decide (i.key = key)) ∧
      r.slots.length = b.entries.length ∧ r.stats.targets = b.entries.length ∧
      r.removeAll.reply = b.entries.length ∧ Event.shutDown b.entries.length ∈ r.shutdown.events ∧
      ({ r₀ with machine := m }.armings ops < 2 ^ 64 - 1 → b = (ops.zip answers).foldl Roll.replay (Roll.start l)) := by
  intro history b
  have hstart : { r₀ with machine := m }.roll = Roll.start l := by
    rw [hnew.eq_fresh]
    rfl
  have hdistinct : { r₀ with machine := m }.Distinct := by
    rw [hnew.eq_fresh]
    exact List.nodup_nil
  have hroll : r.roll = b := by
    have h := (run_roll hdistinct hrun).2
    rwa [hstart] at h
  have hlist : r.list = b.entries := congrArg (·.entries) hroll
  have hlength : r.slots.length = b.entries.length := by rw [← hlist, list, List.length_map]
  refine ⟨calls_of_run ops hrun, hlist, fun key => ?_, hlength, hlength, hlength, ?_, fun hfew => ?_⟩
  · rw [← hlist, list, List.find?_map]
    rfl
  · rw [← hlength]
    exact List.mem_append_right _ (List.mem_singleton.2 rfl)
  · have h := run_replay ops (hnew.numbered m) hrun (by rwa [Nat.zero_add])
    rwa [hstart] at h

end Registry

/-- An image with two symbols at one address. -/
def Blueprint.aliased : Blueprint := ⟨[], [⟨.dynamic, [.plain, .other]⟩]⟩

namespace Registry

/-- Two targets at one place, each with the default delay of its time, the first kept for process 3 and the second for none.
Process 3 passes, the first target gets the new default delay, and then a process passes that is no child of it. -/
def twoServed : List Op :=
  [.insertFile ['/'] (Blueprint.aliased.image .little), .write Endpoint.defaultDelay.name "7\n".toList,
    .write Endpoint.targets.name "+/:f pid=3".toList, .setDefaultDelay 9, .execute (.add ⟨⟨['/'], ['h']⟩, none, some 0⟩),
    .setEnabled true, .trigger ⟨['/'], 16⟩ 3, .write Endpoint.targets.name "=/:f".toList, .trigger ⟨['/'], 16⟩ 7]

theorem list_eq_replayed_twoServed :
    ∃ answers r, (fresh {}).run twoServed = some (answers, r) ∧ (∀ a ∈ answers, ∃ reply, a = .ok reply) ∧
      r.list = [⟨⟨['/'], ['f']⟩, 16, 9, some 3, 1, 7⟩, ⟨⟨['/'], ['h']⟩, 16, 9, none, 2, 18⟩] ∧
      ((twoServed.zip answers).foldl Roll.replay (Roll.start {})).entries = r.list := by
  have hrun : ((fresh {}).run twoServed).map (fun p => (p.1.all (·.toOption.isSome), p.2.list)) =
      some (true, [⟨⟨['/'], ['f']⟩, 16, 9, some 3, 1, 7⟩, ⟨⟨['/'], ['h']⟩, 16, 9, none, 2, 18⟩]) ∧
      (fresh {}).armings twoServed < 2 ^ 64 - 1 := by decide +kernel
  obtain ⟨⟨answers, r⟩, hr, he⟩ := Option.map_eq_some_iff.1 hrun.1
  obtain ⟨hgood, hlist⟩ := Prod.mk.inj he
  obtain ⟨-, hroll, -, -, -, -, -, halone⟩ := list_eq_replayed (m := {}) .standard hr
  refine ⟨answers, r, hr, fun a ha => ?_, hlist, (halone hrun.2) ▸ hroll.symm⟩
  cases a with
  | error e => cases List.all_eq_true.1 hgood _ ha
  | ok reply => exact ⟨reply, rfl⟩

end Registry
end DelayProbe
