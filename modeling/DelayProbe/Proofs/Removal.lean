import DelayProbe.Proofs.Origin
/-!
# Removal — what a written line takes off the list

A line takes no target off the list (`Registry.Retains`), or one, and then it names that target (`Registry.Loses`), or it is a
line of the star.  Those are a minus sign and a star with nothing behind them, and every line that goes on with a line feed,
whatever is behind that (`Command.read_eq_removeAll_iff`, `Registry.writeNamed_removes`).
-/
namespace DelayProbe

/-- A minus sign and a star, and no more of the line. -/
def Text.StarLine (t : Text) : Prop := t = ['-', '*'] ∨ ['-', '*', '\n'] <+: t

instance (t : Text) : Decidable t.StarLine := inferInstanceAs (Decidable (t = ['-', '*'] ∨ ['-', '*', '\n'] <+: t))

/-- A name that is said stands in the text, and only a line end is behind it. -/
theorem Key.Says.exists_lineEnd {l : Limits} {t : Text} {k : Key} (h : k.Says l t) :
    ∃ e, t = k.text ++ e ∧ ∀ c ∈ e, Text.isLineEnd c = true := by
  obtain ⟨rest, rfl, -, -, -, e, rfl, he, -⟩ := h
  exact ⟨e, by simp [Key.text], he⟩

namespace Command

variable {l : Limits} {line : Text}

/-- **The lines of the star that are short enough ask to remove every target, and no others do.** -/
theorem read_eq_removeAll_iff : read l line = .ok .removeAll ↔ line.byteLength ≤ l.lineBytes ∧ line.StarLine := by
  constructor
  · intro h
    refine ⟨(byteLength_le_of_read h).2, or_iff_not_imp_right.2 fun hline => ?_⟩
    have hsays := ((read_eq_ok_iff hline).1 h).2.2
    cases hsays
    rfl
  · rintro ⟨hlen, hline⟩
    obtain ⟨t, rfl, hstar⟩ : ∃ t, line = '-' :: t ∧ isStar t = true := by
      rcases hline with rfl | ⟨e, rfl⟩
      · exact ⟨['*'], rfl, rfl⟩
      · exact ⟨_, rfl, isStar_iff.2 (.inr ⟨e, rfl⟩)⟩
    exact (read_minus_eq_ok_iff hlen).2 (.inl ⟨hstar, rfl⟩)

/-- A line that asks to remove a target has its name behind the minus sign, and then a line end. -/
theorem exists_lineEnd_of_read_remove {k : Key} (h : read l line = .ok (.remove k)) :
    ∃ e, line = '-' :: (k.text ++ e) ∧ ∀ c ∈ e, Text.isLineEnd c = true := by
  obtain ⟨t, ⟨-, _, he, -⟩ | ⟨-, _, he, -⟩ | ⟨rfl, hr⟩⟩ := read_cases h
  · cases he
  · cases he
  · obtain ⟨-, he⟩ | ⟨-, k', he, hsays⟩ := readRemove_eq_ok_iff.1 hr
    · cases he
    · cases he
      obtain ⟨e, rfl, hends⟩ := hsays.exists_lineEnd
      exact ⟨e, rfl, hends⟩

end Command

namespace Registry

variable {r r' : Registry}

/-- Every listed target stays in its place, and armed as it is. -/
def Retains (r r' : Registry) : Prop := r.slots.map Slot.identity <+: r'.slots.map Slot.identity

/-- A target goes, and the others stay as they are. -/
def Loses (r r' : Registry) (s : Slot) : Prop := ∃ as bs, r.slots = as ++ s :: bs ∧ r'.slots = as ++ bs

theorem retains_of_identity (h : r'.slots.map Slot.identity = r.slots.map Slot.identity) : r.Retains r' := by
  unfold Retains
  exact h ▸ List.prefix_refl _

theorem retains_of_slots_eq (h : r'.slots = r.slots) : r.Retains r' := retains_of_identity (congrArg (List.map Slot.identity) h)

theorem add_retains (key : Key) (delay : UInt64) (pid : Option UInt32) : r.Retains (r.add key delay pid).after := by
  rcases add_cases r key delay pid with ⟨-, ha, -⟩ | ⟨im, p, -, -, -, -, ⟨f, -, -, ha, -⟩ | ⟨-, -, ha, -⟩⟩
  · exact retains_of_slots_eq (congrArg (·.slots) ha)
  · exact retains_of_slots_eq (congrArg (·.slots) ha)
  · unfold Retains
    rw [ha, enlist, List.map_append]
    exact List.prefix_append _ _

theorem update_retains (key : Key) (delay : UInt64) (pid : Option UInt32) : r.Retains (r.update key delay pid).after := by
  rcases update_cases r key delay pid with ⟨e, ho⟩ | ⟨s, -, -, -, -, ha⟩
  · exact retains_of_slots_eq (congrArg (·.after.slots) ho)
  · refine retains_of_identity ?_
    rw [ha]
    exact map_modifyFirst Slot.identity _ _ r.slots fun _ _ => rfl

/-- **A removal takes out a target of that name, or none.** -/
theorem remove_retains_or_loses (key : Key) :
    r.Retains (r.remove key).after ∨ ∃ s, s.target.key = key ∧ r.Loses (r.remove key).after s := by
  rcases remove_cases r key with ⟨-, ho⟩ | ⟨s, hs, -, -, ha⟩
  · exact .inl (retains_of_slots_eq (congrArg (·.after.slots) ho))
  · obtain ⟨hkey, as, bs, hslots, has⟩ := List.find?_eq_some_iff_append.1 hs
    refine .inr ⟨s, of_decide_eq_true hkey, as, bs, hslots, ?_⟩
    rw [ha]
    show (r.slots.eraseP fun x => decide (x.target.key = key)) = as ++ bs
    rw [hslots]
    exact eraseP_append_cons has hkey bs

/-- **An order keeps every target, or takes out the one that it names, or is to take out all.** -/
theorem perform_retains_or_loses (order : Order) :
    r.Retains (r.perform order).after ∨ (∃ s, order = .remove s.target.key ∧ r.Loses (r.perform order).after s) ∨
      order = .removeAll := by
  cases order with
  | add key delay pid => exact .inl (add_retains key delay pid)
  | update key delay pid => exact .inl (update_retains key delay pid)
  | removeAll => exact .inr (.inr rfl)
  | remove key =>
    rcases remove_retains_or_loses (r := r) key with h | ⟨s, rfl, h⟩
    · exact .inl h
    · exact .inr (.inl ⟨s, rfl, h⟩)

/-- **A written line that is no line of the star takes at most one target off the list**, and if it takes one, it is a minus
sign and the name of that target, with only a line end behind it.  A line of the star that is not too long takes all. -/
theorem writeNamed_removes (r : Registry) (line : Text) :
    let o := r.writeNamed Endpoint.targets.name line
    (¬ line.StarLine →
        r.Retains o.after ∨
          ∃ s e, r.Loses o.after s ∧ line = '-' :: (s.target.key.text ++ e) ∧ ∀ c ∈ e, Text.isLineEnd c = true) ∧
      (line.StarLine → line.byteLength ≤ r.limits.lineBytes → o.reply = .ok line.byteLength ∧ o.after.slots = []) := by
  intro o
  constructor
  · intro hline
    cases hread : Command.read r.limits line with
    | error e => exact .inl (retains_of_slots_eq (congrArg (·.after.slots) (writeNamed_targets_of_error hread)))
    | ok c =>
      have ho : o.after = (r.perform (c.order r.panel.defaultDelay)).after :=
        congrArg (·.after) (writeNamed_targets hread)
      rw [ho]
      rcases perform_retains_or_loses (r := r) (c.order r.panel.defaultDelay) with h | ⟨s, hs, h⟩ | hall
      · exact .inl h
      · cases c with
        | remove k =>
          cases hs
          obtain ⟨e, hl, he⟩ := Command.exists_lineEnd_of_read_remove hread
          exact .inr ⟨s, e, h, hl, he⟩
        | _ => cases hs
      · cases c with
        | removeAll => exact absurd (Command.read_eq_removeAll_iff.1 hread).2 hline
        | _ => cases hall
  · intro hline hlen
    have ho : o = _ := writeNamed_targets (Command.read_eq_removeAll_iff.2 ⟨hlen, hline⟩)
    rw [ho]
    exact ⟨rfl, congrArg (·.slots) (removeAll_after r)⟩

theorem writeNamed_removes_crlf :
    ∃ answers r s e, (fresh {}).run twinsListed = some (answers, r) ∧ ¬ Text.StarLine "-/a:g\r\n".toList ∧
      r.Loses (r.writeNamed Endpoint.targets.name "-/a:g\r\n".toList).after s ∧
      "-/a:g\r\n".toList = '-' :: (s.target.key.text ++ e) ∧ ∀ c ∈ e, Text.isLineEnd c = true := by
  have hrun : ((fresh {}).run twinsListed).map (fun p =>
      (p.2.slots.length, (p.2.writeNamed Endpoint.targets.name "-/a:g\r\n".toList).after.slots.length)) = some (3, 2) := by
    decide +kernel
  have hline : ¬ Text.StarLine "-/a:g\r\n".toList := by decide
  obtain ⟨⟨answers, r⟩, hr, hlengths⟩ := Option.map_eq_some_iff.1 hrun
  obtain ⟨hbefore, hafter⟩ := Prod.mk.inj hlengths
  rcases (writeNamed_removes r "-/a:g\r\n".toList).1 hline with hkept | ⟨s, e, hlost, hsays, he⟩
  · have hle := hkept.length_le
    rw [List.length_map, List.length_map, hbefore, hafter] at hle
    exact absurd hle (by decide)
  · exact ⟨answers, r, s, e, hr, hline, hlost, hsays, he⟩

/-- **A line of the star takes out every target, though there is more behind its line feed.** -/
theorem writeNamed_removes_behindFeed :
    ((fresh {}).run (twinsListed ++ [.write Endpoint.targets.name "-*\nx".toList, .read Endpoint.targetsList.name])).map
      (fun p => p.1.drop 1) = some [.ok (.number 8), .ok (.number 5), .ok (.number 11), .ok (.number 4), .ok (.text [])] := by
  decide +kernel

end Registry
end DelayProbe
