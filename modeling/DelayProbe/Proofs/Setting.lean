import DelayProbe.Proofs.Interleaving
import DelayProbe.Proofs.Reprint
/-!
# Setting — the switch and the default delay, as they are written and read

Two things can be both written and read.  What is written is a number in front of a line end, with a sign and leading zeros if it
likes (`Setting.Denotes`), and only this number counts: a write is carried out exactly when there is one within bounds, and then
it is what is read, in its shortest form (`Setting.writeNamed_of_denotes`, `Setting.writeNamed_of_none`).  A setting of a registry
in order is within bounds itself, so what is read can be written back, and changes nothing
(`Session.Reached.setting_rereads`).
-/
namespace DelayProbe

/-- What can be both written and read. -/
inductive Setting where
  | enabled
  | defaultDelay
  deriving DecidableEq, Repr

namespace Setting

def endpoint : Setting → Endpoint
  | .enabled => .enabled
  | .defaultDelay => .defaultDelay

def name (e : Setting) : Text := e.endpoint.name

/-- The greatest number it can be set to. -/
def most (l : Limits) : Setting → Nat
  | .enabled => 1
  | .defaultDelay => l.longestDelay.toNat

def get (r : Registry) : Setting → Nat
  | .enabled => r.panel.enabled.toNat
  | .defaultDelay => r.panel.defaultDelay.toNat

def put (n : Nat) (r : Registry) : Setting → Registry
  | .enabled => { r with panel := { r.panel with enabled := decide (n = 1) } }
  | .defaultDelay => { r with panel := { r.panel with defaultDelay := UInt64.ofNat n } }

/-- The request to set it. -/
def asking (n : Nat) : Setting → Request
  | .enabled => .setEnabled (decide (n = 1))
  | .defaultDelay => .setDefaultDelay (UInt64.ofNat n)

/-- A text that writes a number.  The switch is read as a signed number, so that it may be written as minus zero. -/
def Writes (t : Text) (n : Nat) : Setting → Prop
  | .enabled => Decimal.WritesSigned t n
  | .defaultDelay => Decimal.Writes t n

/-- The number that stands in front of the line end. -/
def Denotes (e : Setting) (input : Text) (n : Nat) : Prop := ∃ t, Text.Trims Text.isLineEnd input t ∧ e.Writes t n

variable {l : Limits} {r : Registry} {e : Setting} {input : Text} {n : Nat}

/-! ## Getting and putting -/

theorem get_put (hn : n ≤ e.most l) : e.get (e.put n r) = n := by
  cases e with
  | enabled =>
    rcases Nat.le_one_iff_eq_zero_or_eq_one.1 hn with rfl | rfl <;> rfl
  | defaultDelay => exact Limits.toNat_ofNat_of_le hn

theorem put_get : e.put (e.get r) r = r := by
  cases e with
  | enabled =>
    have hb : decide (r.panel.enabled.toNat = 1) = r.panel.enabled := by cases r.panel.enabled <;> rfl
    show { r with panel := { r.panel with enabled := decide (r.panel.enabled.toNat = 1) } } = r
    rw [hb]
  | defaultDelay => simp only [put, get, UInt64.ofNat_toNat]

theorem get_le_most (h : r.Orderly l) : e.get r ≤ e.most l := by
  cases e with
  | enabled => exact Bool.toNat_le _
  | defaultDelay => exact UInt64.le_iff_toNat_le.1 h.defaultDelay_le

/-! ## What is read -/

/-- The line of the statistics that tells the switch. -/
def switchLine (r : Registry) : Text := "enabled: ".toList ++ Registry.flag r.panel.enabled ++ ['\n']

/-- The lines of the statistics after the first. -/
def countLines (s : Stats) : Text :=
  "targets: ".toList ++ Decimal.text s.targets ++ "\ntotal_hits: ".toList ++ Decimal.text s.hits.toNat ++
    "\ntotal_delay_ns: ".toList ++ Decimal.text s.delays.toNat ++ ['\n']

theorem read_setting : r.readNamed e.name = .ok (Decimal.text (e.get r) ++ ['\n']) := by
  rw [name, Registry.readNamed_name]
  cases e with
  | enabled => cases hb : r.panel.enabled <;> simp [endpoint, Registry.read, get, hb] <;> rfl
  | defaultDelay => rfl

theorem statsText_eq (r : Registry) : Registry.statsText r.stats = switchLine r ++ countLines r.stats := by
  have hfirst : "\ntargets: ".toList = '\n' :: "targets: ".toList := rfl
  have regroup : ∀ a b c d e f g h i : Text,
      a ++ b ++ '\n' :: c ++ d ++ e ++ f ++ g ++ h ++ i = a ++ b ++ ['\n'] ++ (c ++ d ++ e ++ f ++ g ++ h ++ i) := by simp
  unfold Registry.statsText
  rw [hfirst]
  exact regroup ..

theorem read_stats : r.readNamed Endpoint.stats.name = .ok (switchLine r ++ countLines r.stats) := by
  rw [Registry.readNamed_name, ← statsText_eq]
  rfl

/-- After a setting is set to a number it reads as this number in its shortest form, and everything else reads as before, but for
the line of the statistics that tells the switch. -/
structure Shows (e : Setting) (n : Nat) (r r' : Registry) : Prop where
  setting : r'.readNamed e.name = .ok (Decimal.text n ++ ['\n'])
  others : ∀ other : Endpoint, other ≠ e.endpoint → other ≠ .stats → r'.readNamed other.name = r.readNamed other.name
  stats : ∃ rest, r.readNamed Endpoint.stats.name = .ok (switchLine r ++ rest) ∧
    r'.readNamed Endpoint.stats.name = .ok (switchLine r' ++ rest)
  switch : e ≠ .enabled → switchLine r' = switchLine r

/-- **Putting shows**, in the setting and nowhere else. -/
theorem shows_put (hn : n ≤ e.most l) : e.Shows n r (e.put n r) := by
  refine ⟨?_, fun other hother hstats => ?_, ⟨countLines r.stats, read_stats, ?_⟩, fun he => ?_⟩
  · rw [read_setting, get_put hn]
  · rw [Registry.readNamed_name, Registry.readNamed_name]
    cases e <;> cases other <;> first | rfl | exact absurd rfl hother | exact absurd rfl hstats
  · rw [read_stats]
    cases e <;> rfl
  · cases e with
    | enabled => exact absurd rfl he
    | defaultDelay => rfl

/-! ## What is written -/

theorem denotes_text (e : Setting) (n : Nat) : e.Denotes (Decimal.text n ++ ['\n']) n := by
  refine ⟨Decimal.text n, Text.Trims.of_not_mem (by simp [Text.isLineEnd]) fun c hc => ?_, ?_⟩
  · exact Text.isLineEnd_of_isDigit c ((Decimal.isDigits_text n).2 c hc)
  · cases e with
    | enabled => exact .inl ⟨n, Decimal.writes_text n, rfl⟩
    | defaultDelay => exact Decimal.writes_text n

theorem denotes_iff : e.Denotes input n ↔ e.Writes input.stripLineEnd n :=
  ⟨fun ⟨_, ht, hw⟩ => by rwa [Text.stripLineEnd, Text.trimEnd_eq_iff.2 ht], fun hw => ⟨_, Text.trims_stripLineEnd input, hw⟩⟩

theorem request_enabled {t : Text} {q : Request} (ht : input.stripLineEnd = t) :
    Endpoint.enabled.request l input = .ok q ↔
      ∃ n : Nat, Decimal.WritesSigned t n ∧ n ≤ 1 ∧ q = .setEnabled (decide (n = 1)) := by
  unfold Endpoint.request
  rw [ht]
  constructor
  · intro h
    cases hz : Decimal.signed Decimal.int32Max t with
    | error f =>
      simp only [hz] at h
      cases h
    | ok z =>
      have hw := (Decimal.signed_eq_ok_iff.1 hz).1
      simp only [hz] at h
      by_cases h0 : z = 0
      · rw [if_pos h0] at h
        cases h
        subst h0
        exact ⟨0, hw, by decide, rfl⟩
      · rw [if_neg h0] at h
        by_cases h1 : z = 1
        · rw [if_pos h1] at h
          cases h
          subst h1
          exact ⟨1, hw, by decide, rfl⟩
        · rw [if_neg h1] at h
          cases h
  · rintro ⟨n, hw, hn, rfl⟩
    have hz : Decimal.signed Decimal.int32Max t = .ok (n : Int) :=
      Decimal.signed_eq_ok_iff.2 ⟨hw, by unfold Decimal.int32Max; omega⟩
    rw [hz]
    rcases Nat.le_one_iff_eq_zero_or_eq_one.1 hn with rfl | rfl <;> rfl

theorem request_defaultDelay {t : Text} {q : Request} (ht : input.stripLineEnd = t) :
    Endpoint.defaultDelay.request l input = .ok q ↔
      ∃ n : Nat, Decimal.Writes t n ∧ n ≤ l.longestDelay.toNat ∧ q = .setDefaultDelay (UInt64.ofNat n) := by
  unfold Endpoint.request
  rw [ht]
  constructor
  · intro h
    cases hd : l.readDelay t with
    | error f =>
      simp only [hd] at h
      cases h
    | ok d =>
      obtain ⟨hw, hle⟩ := Limits.readDelay_eq_ok_iff.1 hd
      simp only [hd] at h
      cases h
      exact ⟨d.toNat, hw, UInt64.le_iff_toNat_le.1 hle, by rw [UInt64.ofNat_toNat]⟩
  · rintro ⟨n, hw, hn, rfl⟩
    rw [Limits.readDelay_of_writes hw hn]
    rfl

/-- **An input asks for a setting exactly when it writes a number within bounds.** -/
theorem request_eq_ok_iff {q : Request} :
    e.endpoint.request l input = .ok q ↔ ∃ n, e.Denotes input n ∧ n ≤ e.most l ∧ q = e.asking n := by
  simp only [denotes_iff]
  cases e with
  | enabled => exact request_enabled rfl
  | defaultDelay => exact request_defaultDelay rfl

theorem carryOut_asking (hn : n ≤ e.most r.limits) :
    (r.carryOut (e.asking n)).reply = .ok () ∧ (r.carryOut (e.asking n)).after = e.put n r := by
  cases e with
  | enabled => exact ⟨rfl, rfl⟩
  | defaultDelay =>
    have hle : UInt64.ofNat n ≤ r.limits.longestDelay :=
      UInt64.le_iff_toNat_le.2 ((Limits.toNat_ofNat_of_le hn).symm ▸ hn)
    rw [asking, Registry.carryOut, Registry.setDefaultDelay, Limits.checkDelay_eq_ok_iff.2 hle]
    exact ⟨rfl, rfl⟩

/-- **A number within bounds is put**, whatever sign, zeros and line end it is written with. -/
theorem writeNamed_of_denotes (hd : e.Denotes input n) (hn : n ≤ e.most r.limits) :
    (r.writeNamed e.name input).reply = .ok input.byteLength ∧ (r.writeNamed e.name input).after = e.put n r := by
  have hq : r.requestNamed e.name input = .ok (e.asking n) :=
    (r.requestNamed_name e.endpoint input).trans (request_eq_ok_iff.2 ⟨n, hd, hn, rfl⟩)
  obtain ⟨hreply, hafter⟩ := carryOut_asking hn
  rw [Registry.writeNamed, hq]
  refine ⟨?_, hafter⟩
  simp only [Outcome.map, hreply]
  rfl

/-- **An input that writes no number within bounds is refused**, and nothing is done. -/
theorem writeNamed_of_none (h : ∀ n, e.Denotes input n → e.most r.limits < n) :
    ∃ f, r.writeNamed e.name input = ⟨.error f, r, []⟩ := by
  rw [Registry.writeNamed, name, Registry.requestNamed_name]
  cases hq : e.endpoint.request r.limits input with
  | error f => exact ⟨f, rfl⟩
  | ok q =>
    obtain ⟨n, hd, hn, -⟩ := request_eq_ok_iff.1 hq
    exact absurd hn (Nat.not_le.2 (h n hd))

end Setting

/-- **A setting is what was last written to it**, in every state: what is read of it can be written back, and changes nothing; an
input that writes a number within bounds is read as this number from then on, and no other endpoint reads differently, the switch
in the statistics apart; and an input that writes a number out of bounds, or none, is refused and changes nothing. -/
theorem Session.Reached.setting_rereads {l : Limits} {s : Session} (hs : Reached l s) (e : Setting) :
    let r := s.registry
    (∃ text, r.readNamed e.name = .ok text ∧ (r.writeNamed e.name text).reply = .ok text.byteLength ∧
        (r.writeNamed e.name text).after = r) ∧
      ∀ input, let o := r.writeNamed e.name input
        (∀ n, e.Denotes input n → n ≤ e.most l → o.reply = .ok input.byteLength ∧ e.Shows n r o.after) ∧
        ((∀ n, e.Denotes input n → e.most l < n) → ∃ f, o.reply = .error f ∧ o.after = r) := by
  have horder := hs.orderly
  obtain rfl := horder.limits_eq
  refine ⟨⟨_, Setting.read_setting, ?_⟩, fun input => ⟨fun n hd hn => ?_, fun hnone => ?_⟩⟩
  · obtain ⟨hreply, hafter⟩ := Setting.writeNamed_of_denotes (e.denotes_text _) (Setting.get_le_most horder)
    exact ⟨hreply, hafter.trans Setting.put_get⟩
  · obtain ⟨hreply, hafter⟩ := Setting.writeNamed_of_denotes hd hn
    exact ⟨hreply, hafter ▸ Setting.shows_put hn⟩
  · obtain ⟨f, ho⟩ := Setting.writeNamed_of_none hnone
    exact ⟨f, by rw [ho], by rw [ho]⟩

/-- Minus zero turns the switch off, and a delay one past the longest is refused. -/
theorem Session.Reached.setting_rereads_minusZero :
    ∃ s, Reached {} s ∧ (s.registry.panel.enabled = true ∧ s.registry.panel.defaultDelay = 7) ∧
      (∃ text, s.registry.readNamed Setting.defaultDelay.name = .ok text ∧
        (s.registry.writeNamed Setting.defaultDelay.name text).reply = .ok text.byteLength ∧
        (s.registry.writeNamed Setting.defaultDelay.name text).after = s.registry) ∧
      Setting.enabled.Shows 0 s.registry (s.registry.writeNamed Setting.enabled.name "-0\r\n".toList).after ∧
      ∃ f, (s.registry.writeNamed Setting.defaultDelay.name "10000000001".toList).reply = .error f ∧
        (s.registry.writeNamed Setting.defaultDelay.name "10000000001".toList).after = s.registry := by
  have hrun : ((Registry.fresh {}).run [.write Setting.enabled.name "+01".toList,
      .write Setting.defaultDelay.name "+007\n".toList]).map (fun p => (p.2.panel.enabled, p.2.panel.defaultDelay)) =
        some (true, 7) := by decide +kernel
  have hminus : Setting.enabled.Denotes "-0\r\n".toList 0 :=
    Setting.denotes_iff.2 (.inr ⟨['0'], ⟨by decide, by simp⟩, by decide, rfl⟩)
  have hlonger : ∀ n, Setting.defaultDelay.Denotes "10000000001".toList n → 10000000000 < n := fun n hd => by
    have hprinted : Text.stripLineEnd "10000000001".toList = Decimal.text 10000000001 := by decide +kernel
    have hn : n = 10000000001 := Decimal.Writes.unique (hprinted ▸ Setting.denotes_iff.1 hd) (Decimal.writes_text _)
    omega
  obtain ⟨⟨answers, r⟩, hr, hp⟩ := Option.map_eq_some_iff.1 hrun
  obtain ⟨s, hs, -, rfl⟩ := Reached.of_run (m := {}) .standard hr
  obtain ⟨hback, hdelay⟩ := hs.setting_rereads .defaultDelay
  obtain ⟨-, hswitch⟩ := hs.setting_rereads .enabled
  exact ⟨s, hs, Prod.mk.inj hp, hback, ((hswitch _).1 0 hminus (by decide)).2, (hdelay _).2 hlonger⟩

end DelayProbe
