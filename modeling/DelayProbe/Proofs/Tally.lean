import DelayProbe.Proofs.Replay
import DelayProbe.Proofs.Accrual
/-!
# Tally — every delay is counted, in the totals and on the target that told it

Two sets of counters take note of a hit: one part of the totals, for the processor it ran on, and the target itself.  Neither is
computed from the other.  Both are told here from the history of a run: the totals hold what came back from every passage since
the counts were last reset (`Registry.step_totals`), and a target holds what it told since then, or since it was listed
(`Registry.step_counts`).  All counts wrap at 64 bits.
-/
namespace DelayProbe

namespace Call

/-- The delays that the target of a name told. -/
def hitsOf (c : Call) (key : Key) : List UInt64 := (c.hits.filter fun h => decide (h.1 = key)).map (·.2)

/-- Whether the counts of a name start over: its target was listed, or all counts were reset. -/
def startsOver (l : Limits) (c : Call) (key : Key) : Bool := c.resets || decide (c.added? l = some key)

end Call

/-- All delays since the counts were last reset. -/
def delaysOf (history : List Call) : List UInt64 := (history.rtakeWhile fun c => !c.resets).flatMap Call.delays

/-- The delays that the target of a name told since it was listed, or since the counts were last reset. -/
def delaysOfKey (l : Limits) (history : List Call) (key : Key) : List UInt64 :=
  (history.rtakeWhile fun c => !c.startsOver l key).flatMap (·.hitsOf key)

theorem delaysOf_concat (history : List Call) (c : Call) :
    delaysOf (history ++ [c]) = if c.resets then [] else delaysOf history ++ c.delays := by
  unfold delaysOf
  exact sinceReset_concat history c

theorem delaysOfKey_concat (l : Limits) (history : List Call) (c : Call) (key : Key) :
    delaysOfKey l (history ++ [c]) key = if c.startsOver l key then [] else delaysOfKey l history key ++ c.hitsOf key := by
  unfold delaysOfKey
  exact sinceReset_concat history c

/-! ## The entries of a roll -/

namespace Roll

variable {ds : Key → List UInt64}

/-- Every entry of a list counts the delays noted under its name. -/
def Counted (ds : Key → List UInt64) (es : List TargetInfo) : Prop := ∀ i ∈ es, Counts i.hits i.delays (ds i.key)

/-- **An order lists an entry that counts nothing yet, or leaves the counts of the entries as they are.** -/
theorem mem_obey {b : Roll} {o : Order} {i : TargetInfo} (hi : i ∈ (b.obey o).entries) :
    (o.added? = some i.key ∧ i.hits = 0 ∧ i.delays = 0) ∨
      ∃ j ∈ b.entries, j.key = i.key ∧ j.hits = i.hits ∧ j.delays = i.delays := by
  have same : i ∈ b.entries → ∃ j ∈ b.entries, j.key = i.key ∧ j.hits = i.hits ∧ j.delays = i.delays :=
    fun h => ⟨i, h, rfl, rfl, rfl⟩
  cases o with
  | add key delay pid =>
    rcases b.obey_add_cases key delay pid with h | ⟨offset, h⟩
    · exact .inr (same (h ▸ hi))
    · rw [h] at hi
      rcases List.mem_append.1 hi with hi | hi
      · exact .inr (same hi)
      · rw [List.mem_singleton.1 hi]
        exact .inl ⟨rfl, rfl, rfl⟩
  | remove key => exact .inr (same (List.mem_filter.1 hi).1)
  | removeAll => cases hi
  | update key delay pid =>
    obtain ⟨j, hj, rfl⟩ := List.mem_map.1 hi
    refine .inr ⟨j, hj, ?_⟩
    by_cases hk : j.key = key
    · rw [if_pos hk]
      exact ⟨rfl, rfl, rfl⟩
    · rw [if_neg hk]
      exact ⟨rfl, rfl, rfl⟩

theorem counted_change {es : List TargetInfo} (h : Counted ds es) (x : Key × UInt64) :
    Counted (fun key => if x.1 = key then ds key ++ [x.2] else ds key) (change x.1 (·.counted x.2) es) := by
  intro i hi
  obtain ⟨j, hj, rfl⟩ := List.mem_map.1 hi
  by_cases hk : j.key = x.1
  · simp only [hk, if_true]
    show Counts (j.hits + 1) (j.delays + x.2) (if x.1 = j.key then ds j.key ++ [x.2] else ds j.key)
    rw [if_pos hk.symm]
    exact (h j hj).concat x.2
  · simp only [hk, Ne.symm hk, if_false]
    exact h j hj

/-- **Every hit counts on the entries of its name, and on no others.** -/
theorem counted_count : ∀ (hits : List (Key × UInt64)) {ds : Key → List UInt64} {es : List TargetInfo}, Counted ds es →
    Counted (fun key => ds key ++ (hits.filter fun h => decide (h.1 = key)).map (·.2)) (count es hits)
  | [], _, _, h => fun i hi => by
    simpa using h i hi
  | x :: hits, ds, es, h => by
    intro i hi
    have ih := counted_count hits (counted_change h x) i hi
    by_cases hk : x.1 = i.key <;> simpa [hk] using ih

end Roll

namespace Registry

variable {r : Registry}

/-! ## One request -/

/-- What the totals hold: how many delays there were, and how long they are together. -/
def Totals (r : Registry) (ds : List UInt64) : Prop := Counts r.panel.totalHits r.panel.totalDelay ds

theorem Totals.congr {r' : Registry} {ds : List UInt64} (h : r.Totals ds) (hh : r'.panel.hits = r.panel.hits)
    (hd : r'.panel.delays = r.panel.delays) : r'.Totals ds := by
  unfold Totals Panel.totalHits Panel.totalDelay at h ⊢
  rwa [hh, hd]

theorem perform_panel (r : Registry) (order : Order) : (r.perform order).after.panel = r.panel := by
  cases order with
  | add key delay pid =>
    rcases add_cases r key delay pid with ⟨-, ha, -⟩ | ⟨im, place, -, -, -, -, harm⟩
    · exact congrArg (·.panel) ha
    · rcases harm with ⟨f, -, -, ha, -⟩ | ⟨-, -, ha, -⟩ <;> exact congrArg (·.panel) ha
  | remove key =>
    rcases remove_cases r key with ⟨-, ho⟩ | ⟨s, -, -, -, ha⟩
    · rw [perform, ho]
      rfl
    · exact congrArg (·.panel) ha
  | removeAll => exact congrArg (·.panel) (removeAll_after r)
  | update key delay pid =>
    rcases update_cases r key delay pid with ⟨e, ho⟩ | ⟨s, -, -, -, -, ha⟩
    · rw [perform, ho]
      rfl
    · exact congrArg (·.panel) ha

theorem carryOut_totals {ds : List UInt64} (h : r.Totals ds) (q : Request) : (r.carryOut q).after.Totals ds := by
  cases q with
  | setEnabled on => exact h.congr rfl rfl
  | setDefaultDelay delay =>
    rcases setDefaultDelay_cases r delay with ⟨e, ho⟩ | ⟨-, -, -, ha⟩
    · rw [carryOut, ho]
      exact h
    · rw [carryOut, ha]
      exact h.congr rfl rfl
  | execute c =>
    have hp := perform_panel r (c.order r.panel.defaultDelay)
    exact h.congr (congrArg (·.hits) hp) (congrArg (·.delays) hp)

/-- **A hit counts in the totals when it delayed the process.** -/
theorem hit_totals {ds : List UInt64} (h : r.Totals ds) {handle : UInt64} {pid : UInt32} {v : Verdict} {r' : Registry}
    (hh : r.hit handle pid = some (v, r')) : r'.Totals (ds ++ delaysIn [v]) := by
  cases hs : r.slots.find? (fun s => decide (s.handle = handle)) with
  | none =>
    rw [hit_unlisted hs] at hh
    cases hh
    cases r.panel.enabled <;> simpa [delaysIn_one, Verdict.delay?] using h
  | some s =>
    rcases (hit_cases hs hh).2 with ⟨hv, rfl⟩ | ⟨d, m, rfl, -, rfl⟩
    · cases v with
      | delayed ns => exact absurd rfl (hv ns)
      | _ => simpa [delaysIn_one, Verdict.delay?] using h
    · exact Panel.Holds.recordHit h _ d

theorem hitAll_totals (pid : UInt32) : ∀ (handles : List UInt64) {r r' : Registry} {vs : List Verdict} {ds : List UInt64},
    r.Totals ds → hitAll pid handles r = some (vs, r') → r'.Totals (ds ++ delaysIn vs)
  | [], _, _, _, ds, h, hh => by
    cases hh
    exact (List.append_nil ds).symm ▸ h
  | handle :: handles, r, r', vs, ds, h, hh => by
    obtain ⟨v, r₁, rest, hv, hrest, rfl⟩ := hitAll_cons_eq_some_iff.1 hh
    have ih := hitAll_totals pid handles (hit_totals h hv) hrest
    rwa [List.append_assoc, ← delaysIn_cons] at ih

theorem hit_attributed {handle : UInt64} {pid : UInt32} {v : Verdict} {r' : Registry} (hh : r.hit handle pid = some (v, r')) :
    delaysIn [v] = (hitsAmong (r.byName [handle] [v])).map (·.2) := by
  cases hs : r.slots.find? (fun s => decide (s.handle = handle)) with
  | none =>
    rw [hit_unlisted hs] at hh
    cases hh
    cases r.panel.enabled <;> simp [byName_one, nameAt?, hs, hitsAmong, delaysIn_one, Verdict.delay?]
  | some s => cases hd : v.delay? <;> simp [byName_one, nameAt?, hs, hitsAmong, delaysIn_one, hd]

/-- **Every delay comes from a listed target.** -/
theorem hitAll_attributed (pid : UInt32) : ∀ (handles : List UInt64) {r r' : Registry} {vs : List Verdict},
    hitAll pid handles r = some (vs, r') → delaysIn vs = (hitsAmong (r.byName handles vs)).map (·.2)
  | [], _, _, _, hh => by
    cases hh
    rfl
  | handle :: handles, r, r', vs, hh => by
    obtain ⟨v, r₁, rest, hv, hrest, rfl⟩ := hitAll_cons_eq_some_iff.1 hh
    have ih := hitAll_attributed pid handles hrest
    rw [byName_of_identity (hit_identity hv)] at ih
    rw [delaysIn_cons, hitsAmong_byName_cons, List.map_append, hit_attributed hv, ih]

/-- **A request resets the totals, or the totals count what it was answered.** -/
theorem step_totals {ds : List UInt64} (h : r.Totals ds) {op : Op} {o : Outcome Answer} (ho : r.step op = some o) :
    o.after.Totals (if (r.call op o).resets then [] else ds ++ (r.call op o).delays) := by
  have quiet : (r.call op o).resets = false → (r.call op o).delays = [] → o.after.Totals ds →
      o.after.Totals (if (r.call op o).resets then [] else ds ++ (r.call op o).delays) := fun hr hd ht => by
    rw [hr, hd, List.append_nil]
    exact ht
  have requested : ∀ {q : Request}, op.request? r.limits = some q → o.after.Totals ds := fun {q} hq => by
    rw [(step_request hq ho).after_eq]
    exact carryOut_totals h q
  cases op with
  | perform order =>
    have hp := perform_panel r order
    rw [← (step_perform ho).after_eq] at hp
    exact quiet rfl rfl (h.congr (congrArg (·.hits) hp) (congrArg (·.delays) hp))
  | execute c => exact quiet rfl rfl (requested rfl)
  | setEnabled on => exact quiet rfl rfl (requested rfl)
  | setDefaultDelay delay => exact quiet rfl rfl (requested rfl)
  | write name input =>
    rcases step_write ho with ⟨q, hq, -⟩ | ⟨-, e, rfl⟩
    · exact quiet rfl rfl (requested hq)
    · exact quiet rfl rfl h
  | shutdown =>
    cases ho
    have ha : r.shutdown.after.Totals ds := by
      rw [shutdown_after]
      exact h.congr rfl rfl
    exact quiet rfl rfl ha
  | resetStats =>
    cases ho
    exact Counts.nil
  | trigger probe pid =>
    obtain ⟨⟨vs, r'⟩, ht, rfl⟩ := Option.map_eq_some_iff.1 ho
    exact hitAll_totals pid _ h ht
  | read name =>
    cases ho
    exact quiet rfl rfl h
  | _ =>
    cases ho
    exact quiet rfl rfl (h.congr rfl rfl)

/-- **A request starts the counts of a name over, or they count what was told by its target.** -/
theorem step_counts {ds : Key → List UInt64} (hd : r.Distinct) (h : Roll.Counted ds r.list) {op : Op} {o : Outcome Answer}
    (ho : r.step op = some o) :
    Roll.Counted (fun key => if (r.call op o).startsOver r.limits key then [] else ds key ++ (r.call op o).hitsOf key)
      o.after.list := by
  have hlist : o.after.list = (r.roll.note (r.call op o)).entries := congrArg (·.entries) (step_roll hd ho)
  have hlimits : r.roll.limits = r.limits := rfl
  have hb := Roll.becomes_note r.roll (r.call op o)
  rw [hlist]
  generalize (r.roll.note (r.call op o)).entries = es at hb
  intro i hi
  cases hb with
  | obeyed order added hits resets =>
    rw [hlimits] at added
    rcases Roll.mem_obey hi with ⟨hk, hh, hd⟩ | ⟨j, hj, hk, hh, hd⟩
    · simp only [Call.startsOver, added, hk, decide_true, Bool.or_true, if_true, hh, hd]
      exact Counts.nil
    · -- what is added is not listed yet, so it is not this entry
      have hne : (r.call op o).added? r.limits ≠ some i.key := fun ha => by
        obtain ⟨s, hs, rfl⟩ := List.mem_map.1 hj
        exact List.find?_eq_none.1 (step_fresh ho ha) s hs (decide_eq_true hk)
      have hj := h j hj
      rw [hk, hh, hd] at hj
      simpa [Call.startsOver, resets, hne, Call.hitsOf, hits] using hj
  | cleared => cases hi
  | reset added hits resets =>
    obtain ⟨j, hj, rfl⟩ := List.mem_map.1 hi
    simp only [Call.startsOver, resets, Bool.true_or, if_true]
    exact Counts.nil
  | counted added resets =>
    rw [hlimits] at added
    have hc := Roll.counted_count _ h i hi
    simpa [Call.startsOver, resets, added, Call.hitsOf] using hc

theorem step_attributed {op : Op} {o : Outcome Answer} (ho : r.step op = some o) :
    (r.call op o).delays = (r.call op o).hits.map (·.2) := by
  cases op with
  | trigger probe pid =>
    obtain ⟨⟨vs, r'⟩, ht, rfl⟩ := Option.map_eq_some_iff.1 ho
    exact hitAll_attributed pid _ ht
  | _ => rfl

/-! ## Runs -/

/-- **Every delay of a history is counted**, once in the totals and once on the target that told it. -/
structure Tallied (l : Limits) (r : Registry) (history : List Call) : Prop where
  limits_eq : r.limits = l
  distinct : r.Distinct
  totals : r.Totals (delaysOf history)
  counted : Roll.Counted (delaysOfKey l history) r.list
  attributed : ∀ c ∈ history, c.delays = c.hits.map (·.2)

theorem step_tallied {l : Limits} {history : List Call} (h : Tallied l r history) {op : Op} {o : Outcome Answer}
    (ho : r.step op = some o) : Tallied l o.after (history ++ [r.call op o]) := by
  obtain ⟨rfl, hd, ht, hc, ha⟩ := h
  have hroll := step_roll hd ho
  refine ⟨(congrArg Roll.limits hroll).trans (Roll.limits_note r.roll _), step_distinct hd ho, ?_, fun i hi => ?_,
    fun c hc => ?_⟩
  · rw [delaysOf_concat]
    exact step_totals ht ho
  · rw [delaysOfKey_concat]
    exact step_counts hd hc ho i hi
  · rcases List.mem_append.1 hc with h | h
    · exact ha c h
    · rw [List.mem_singleton.1 h]
      exact step_attributed ho

theorem run_tallied {l : Limits} {ops : List Op} {answers : List Answer} {r' : Registry} (h : Tallied l r [])
    (hr : r.run ops = some (answers, r')) : Tallied l r' (r.calls ops) := by
  have hf : Tallied l r' ((r.calls ops).foldl (fun history c => history ++ [c]) []) :=
    run_foldl (R := Tallied l) (fun h ho => step_tallied h ho) ops h hr
  rwa [List.foldl_append_eq_append (f := fun c => [c]), List.nil_append, ← List.flatMap_def,
    List.flatMap_singleton'] at hf

/-- **No delay is lost, counted twice or moved**, whatever is done to a registry: its totals hold, modulo 2^64, how many processes
were delayed since the counts were last reset and for how long, and every listed target holds the same of those it delayed itself
since then and since it was listed.  The delays that came back from a passage are those of the targets that told them. -/
theorem stats_eq_tally {l : Limits} {r₀ : Registry} {m : Machine} {ops : List Op} {answers : List Answer} (hnew : New l r₀)
    (hrun : { r₀ with machine := m }.run ops = some (answers, r)) :
    let history := { r₀ with machine := m }.calls ops
    (history.map (·.op) = ops ∧ history.map (·.answer) = answers) ∧
      Counts r.stats.hits r.stats.delays (delaysOf history) ∧
      (∀ i ∈ r.list, Counts i.hits i.delays (delaysOfKey l history i.key)) ∧
      ∀ c ∈ history, c.delays = c.hits.map (·.2) := by
  intro history
  have hstart : Tallied l { r₀ with machine := m } [] := by
    rw [hnew.eq_fresh]
    exact ⟨rfl, List.nodup_nil, Counts.nil, fun _ hi => (by cases hi), fun _ hc => (by cases hc)⟩
  have h := run_tallied hstart hrun
  exact ⟨calls_of_run ops hrun, h.totals, h.counted, h.attributed⟩

/-- A file, a target in it, and a process that passes there. -/
def onePassed : List Op :=
  [.insertFile ['/'] (Blueprint.small.image .little), .perform (.add ⟨['/'], ['f']⟩ 5 (some 0)), .setEnabled true,
    .trigger ⟨['/'], 16⟩ 7]

/-- After that the target is removed and listed anew, and the process passes again on another processor. -/
def listedAnew : List Op :=
  onePassed ++ [.perform (.remove ⟨['/'], ['f']⟩), .perform (.add ⟨['/'], ['f']⟩ 7 none), .setCpu 9,
    .trigger ⟨['/'], 16⟩ 7]

theorem stats_eq_tally_listedAnew :
    ∃ answers r, (fresh {}).run listedAnew = some (answers, r) ∧ (r.stats.hits = 2 ∧ r.list.map (·.hits) = [1]) ∧
      Counts 2 r.stats.delays (delaysOf ((fresh {}).calls listedAnew)) ∧
      ∀ i ∈ r.list, Counts i.hits i.delays (delaysOfKey {} ((fresh {}).calls listedAnew) i.key) := by
  have hrun : ((fresh {}).run listedAnew).map (fun p => (p.2.stats.hits, p.2.list.map (·.hits))) = some (2, [1]) := by
    decide +kernel
  obtain ⟨⟨answers, r⟩, hr, he⟩ := Option.map_eq_some_iff.1 hrun
  obtain ⟨hhits, hlist⟩ := Prod.mk.inj he
  have h := stats_eq_tally (m := {}) .standard hr
  exact ⟨answers, r, hr, ⟨hhits, hlist⟩, hhits ▸ h.2.1, h.2.2.1⟩

end Registry
end DelayProbe
