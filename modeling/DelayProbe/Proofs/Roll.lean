import DelayProbe.Proofs.History
/-!
# Roll — the list of targets as an outsider would keep it

A `Roll` is a plain list of entries in the order of their addition, with the files and the default delay as they stand.
`Roll.note` changes it by one call and looks at no slot, no probe and no number: an addition appends, a removal takes out the
entry of that name, an update changes it where it stands.  A command is taken apart here, and which delay and which filter a
target gets is said here; that a registry does the same is proved (`Roll.command_eq`, `Roll.written_eq`,
`TargetInfo.filterAfter_none`).  `Roll.becomes_note` says what a call may make of the entries.
-/
namespace DelayProbe

namespace TargetInfo

/-- Where the probe of a target is. -/
def probe (i : TargetInfo) : Probe := ⟨i.key.path, i.offset⟩

/-- The filter after a process is named: the one before if none is, and no filter at all if it is process 0. -/
def filterAfter (before : Option UInt32) : Option UInt32 → Option UInt32
  | none => before
  | some p => if p = 0 then none else some p

theorem filterAfter_none (pid : Option UInt32) : filterAfter none pid = filterFor (pid.getD 0) := by cases pid <;> rfl

/-- A new delay, and a new filter if a process is named. -/
def retuned (delay : UInt64) (pid : Option UInt32) (i : TargetInfo) : TargetInfo :=
  { i with delay, filter := filterAfter i.filter pid }

def counted (delay : UInt64) (i : TargetInfo) : TargetInfo := { i with hits := i.hits + 1, delays := i.delays + delay }

def cleared (i : TargetInfo) : TargetInfo := { i with hits := 0, delays := 0 }

end TargetInfo

structure Roll where
  limits : Limits
  defaultDelay : UInt64
  files : Text → Option Image := fun _ => none
  entries : List TargetInfo := []

namespace Roll

def start (l : Limits) : Roll := { limits := l, defaultDelay := l.defaultDelay }

/-- Changes the entry of a name where it stands. -/
def change (key : Key) (f : TargetInfo → TargetInfo) (es : List TargetInfo) : List TargetInfo :=
  es.map fun i => if i.key = key then f i else i

/-- An order that was carried out.  A new entry gets the offset that its symbol has in the file of its path, as that is now. -/
def obey (b : Roll) : Order → Roll
  | .add key delay pid =>
    match b.files key.path with
    | none => b
    | some im =>
      match im.resolve key.symbol with
      | .error _ => b
      | .ok place => { b with entries := b.entries ++ [⟨key, place.offset, delay, TargetInfo.filterAfter none pid, 0, 0⟩] }
  | .remove key => { b with entries := b.entries.filter fun i => decide (i.key ≠ key) }
  | .removeAll => { b with entries := [] }
  | .update key delay pid => { b with entries := change key (·.retuned delay pid) b.entries }

/-- A command that was carried out.  One that names no delay gets the default delay as it is now. -/
def command (b : Roll) : Command → Roll
  | .add s => b.obey (.add s.key (s.delay.getD b.defaultDelay) s.pid)
  | .remove key => b.obey (.remove key)
  | .removeAll => b.obey .removeAll
  | .update s => b.obey (.update s.key (s.delay.getD b.defaultDelay) s.pid)

/-- What was written to an endpoint: a command, a new default delay, or what makes no difference to the targets. -/
def written (b : Roll) (name input : Text) : Roll :=
  if name = Endpoint.targets.name then
    match Command.read b.limits input with
    | .error _ => b
    | .ok c => b.command c
  else if name = Endpoint.defaultDelay.name then
    match b.limits.readDelay input.stripLineEnd with
    | .error _ => b
    | .ok delay => { b with defaultDelay := delay }
  else b

/-- A request that was granted. -/
def grant (b : Roll) : Request → Roll
  | .setEnabled _ => b
  | .setDefaultDelay delay => { b with defaultDelay := delay }
  | .execute c => b.command c

/-- Every hit that delayed its process counts on the entry it was told by. -/
def count (es : List TargetInfo) (hits : List (Key × UInt64)) : List TargetInfo :=
  hits.foldl (fun es h => change h.1 (·.counted h.2) es) es

/-- The roll after a call. -/
def note (b : Roll) (c : Call) : Roll :=
  match c.answer with
  | .error _ => b
  | .ok _ =>
    match c.op with
    | .perform o => b.obey o
    | .execute command => b.command command
    | .setDefaultDelay delay => { b with defaultDelay := delay }
    | .write name input => b.written name input
    | .shutdown => { b with entries := [] }
    | .resetStats => { b with entries := b.entries.map TargetInfo.cleared }
    | .trigger _ _ => { b with entries := count b.entries c.hits }
    | .insertFile path im => { b with files := fun p => if p = path then some im else b.files p }
    | .removeFile path => { b with files := fun p => if p = path then none else b.files p }
    | _ => b

/-- What was told to a process that passed a place: its verdicts come from the entries there, each once and in their order. -/
def told (b : Roll) : Op → Answer → List (Key × Verdict)
  | .trigger probe _, .ok (.verdicts vs) => ((b.entries.filter fun i => decide (i.probe = probe)).map (·.key)).zip vs
  | _, _ => []

/-- The roll after a request, from its answer alone. -/
def replay (b : Roll) (p : Op × Answer) : Roll := b.note ⟨p.1, p.2, b.told p.1 p.2, false⟩

/-! ## Notes -/

theorem note_of_error {b : Roll} {c : Call} {e : Refusal} (h : c.answer = .error e) : b.note c = b := by
  unfold note
  rw [h]

theorem command_eq (b : Roll) (c : Command) : b.command c = b.obey (c.order b.defaultDelay) := by cases c <;> rfl

/-- **What is written comes to the request that it is read as**, if it can be read. -/
theorem written_eq (b : Roll) (name input : Text) :
    b.written name input = ((Op.write name input).request? b.limits).elim b b.grant := by
  have hread : (Op.write name input).request? b.limits =
      (Endpoint.ofName? name).bind fun e => (e.request b.limits input).toOption := rfl
  rw [hread, written]
  cases hname : Endpoint.ofName? name with
  | none =>
    have hne : ∀ e : Endpoint, name ≠ e.name := fun e he => by
      rw [he, Endpoint.ofName?_name] at hname
      cases hname
    rw [if_neg (hne _), if_neg (hne _)]
    rfl
  | some e =>
    obtain rfl := Endpoint.name_of_ofName? hname
    rw [Option.bind_some]
    cases e with
    | targets =>
      rw [if_pos rfl, Endpoint.request]
      cases Command.read b.limits input <;> rfl
    | defaultDelay =>
      rw [if_neg (by decide), if_pos rfl, Endpoint.request]
      cases b.limits.readDelay input.stripLineEnd <;> rfl
    | enabled =>
      rw [if_neg (by decide), if_neg (by decide), Endpoint.request]
      cases Decimal.signed Decimal.int32Max input.stripLineEnd with
      | error e => rfl
      | ok n =>
        simp only
        split
        · rfl
        · split <;> rfl
    | targetsList | stats => rfl

theorem note_of_request {b : Roll} {c : Call} {q : Request} {a : Reply} (h : c.answer = .ok a)
    (hq : c.op.request? b.limits = some q) : b.note c = b.grant q := by
  obtain ⟨op, answer, told, handed⟩ := c
  cases h
  cases op with
  | execute | setEnabled | setDefaultDelay =>
    cases hq
    rfl
  | write name input =>
    simp only [note, written_eq]
    rw [hq, Option.elim_some]
  | _ => cases hq

theorem count_append (es : List TargetInfo) (hits hits' : List (Key × UInt64)) :
    count es (hits ++ hits') = count (count es hits) hits' := List.foldl_append

theorem obey_add_cases (b : Roll) (key : Key) (delay : UInt64) (pid : Option UInt32) :
    b.obey (.add key delay pid) = b ∨
      ∃ offset, b.obey (.add key delay pid) =
        { b with entries := b.entries ++ [⟨key, offset, delay, TargetInfo.filterAfter none pid, 0, 0⟩] } := by
  rw [obey]
  cases b.files key.path with
  | none => exact .inl rfl
  | some im =>
    simp only
    cases im.resolve key.symbol with
    | error e => exact .inl rfl
    | ok place => exact .inr ⟨place.offset, rfl⟩

/-! ## Limits -/

theorem limits_obey (b : Roll) (o : Order) : (b.obey o).limits = b.limits := by
  cases o with
  | add key delay pid => rcases b.obey_add_cases key delay pid with h | ⟨offset, h⟩ <;> rw [h]
  | _ => rfl

theorem limits_command (b : Roll) (c : Command) : (b.command c).limits = b.limits := by
  rw [command_eq]
  exact limits_obey b _

theorem limits_grant (b : Roll) (q : Request) : (b.grant q).limits = b.limits := by
  cases q with
  | execute c => exact limits_command b c
  | _ => rfl

/-- No call changes the limits. -/
theorem limits_note (b : Roll) (c : Call) : (b.note c).limits = b.limits := by
  obtain ⟨op, answer, told, handed⟩ := c
  cases answer with
  | error e => rfl
  | ok a =>
    cases op with
    | perform o => exact limits_obey b o
    | execute c => exact limits_command b c
    | write name input =>
      simp only [note, written_eq]
      cases (Op.write name input).request? b.limits with
      | none => rfl
      | some q => exact limits_grant b q
    | _ => rfl

/-! ## Names -/

/-- The names on a roll, first to last. -/
def names (b : Roll) : List Key := b.entries.map (·.key)

theorem map_key_change {key : Key} {f : TargetInfo → TargetInfo} (hf : ∀ i, (f i).key = i.key) (es : List TargetInfo) :
    (change key f es).map (·.key) = es.map (·.key) := by
  rw [change, List.map_map]
  refine List.map_congr_left fun i _ => ?_
  by_cases h : i.key = key <;> simp [h, hf]

theorem map_key_count : ∀ (hits : List (Key × UInt64)) (es : List TargetInfo),
    (count es hits).map (·.key) = es.map (·.key)
  | [], _ => rfl
  | h :: hits, es => (map_key_count hits _).trans (map_key_change (f := (·.counted h.2)) (fun _ => rfl) es)

/-- An order takes names from the roll or puts the name it adds at the end. -/
theorem names_obey (b : Roll) (o : Order) :
    (b.obey o).names.Sublist b.names ∨ ∃ key, o.added? = some key ∧ (b.obey o).names = b.names ++ [key] := by
  cases o with
  | add key delay pid =>
    rcases b.obey_add_cases key delay pid with h | ⟨offset, h⟩
    · rw [h]
      exact .inl (.refl _)
    · exact .inr ⟨key, rfl, by simp [names, h]⟩
  | remove key => exact .inl (List.filter_sublist.map _)
  | removeAll => exact .inl (List.nil_sublist _)
  | update key delay pid =>
    have hn : (b.obey (.update key delay pid)).names = b.names :=
      map_key_change (f := (·.retuned delay pid)) (fun _ => rfl) b.entries
    exact .inl (hn ▸ .refl _)

/-- What a call may make of the entries of a roll: an order is carried out, they are all struck off, their counts are reset, or
the hits of the call, if there are any, are counted. -/
inductive Becomes (b : Roll) (c : Call) : List TargetInfo → Prop
  | obeyed (o : Order) (added : c.added? b.limits = o.added?) (hits : c.hits = []) (resets : c.resets = false) :
      Becomes b c (b.obey o).entries
  | cleared (added : c.added? b.limits = none) (hits : c.hits = []) (resets : c.resets = false) : Becomes b c []
  | reset (added : c.added? b.limits = none) (hits : c.hits = []) (resets : c.resets = true) :
      Becomes b c (b.entries.map TargetInfo.cleared)
  | counted (added : c.added? b.limits = none) (resets : c.resets = false) : Becomes b c (count b.entries c.hits)

theorem Becomes.command {b : Roll} {c : Call} {command : Command}
    (added : c.added? b.limits = (command.order b.defaultDelay).added?) (hits : c.hits = []) (resets : c.resets = false) :
    Becomes b c (b.command command).entries := by
  rw [command_eq]
  exact .obeyed _ added hits resets

theorem becomes_note (b : Roll) (c : Call) : Becomes b c (b.note c).entries := by
  have idle : c.added? b.limits = none → c.resets = false → c.hits = [] → Becomes b c b.entries := fun ha hr hh => by
    have h := Becomes.counted ha hr
    rwa [hh] at h
  obtain ⟨op, answer, told, handed⟩ := c
  cases answer with
  | error e => cases op <;> exact idle rfl rfl rfl
  | ok a =>
    cases op with
    | perform o => exact .obeyed o rfl rfl rfl
    | shutdown => exact .cleared rfl rfl rfl
    | resetStats => exact .reset rfl rfl rfl
    | trigger probe pid => exact .counted rfl rfl
    | execute c => exact .command (c.added?_order _ _) rfl rfl
    | write name input =>
      cases hq : (Op.write name input).request? b.limits with
      | none =>
        have hn : b.note ⟨.write name input, .ok a, told, handed⟩ = b := by
          simp only [note, written_eq]
          rw [hq, Option.elim_none]
        rw [hn]
        refine idle ?_ rfl rfl
        simp only [Call.added?, Op.added?, Op.order?, hq, Option.bind_none]
      | some q =>
        rw [note_of_request rfl hq]
        have hadded := Op.added?_eq b.limits (.write name input) b.defaultDelay
        rw [Op.order?_of_request? hq] at hadded
        cases q with
        | execute c => exact .command hadded rfl rfl
        | _ => exact idle hadded rfl rfl
    | _ => exact idle rfl rfl rfl

/-- **A call takes names from the roll or puts the name it adds at the end.** -/
theorem names_note (b : Roll) (c : Call) :
    (b.note c).names.Sublist b.names ∨ ∃ key, c.added? b.limits = some key ∧ (b.note c).names = b.names ++ [key] := by
  have h := becomes_note b c
  unfold names
  generalize (b.note c).entries = es at h
  cases h with
  | obeyed o added =>
    rw [added]
    exact names_obey b o
  | cleared => exact .inl (List.nil_sublist _)
  | reset =>
    refine .inl ?_
    rw [List.map_map]
    exact .refl _
  | counted => exact .inl (map_key_count c.hits b.entries ▸ .refl _)

end Roll
end DelayProbe
