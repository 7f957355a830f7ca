import TreeMachine.Proofs.Linking.Growth

/-!
# Linking the jumps of a body

When a body is complete, each of its jumps is given the label that it names, provided that the label
stands in a sequence around the jump. After that every jump of the body fits
(`Link.advances_withBody`), and the jumps of the bodies further out wait as before.

A jump may come before its label, so it cannot be resolved where it is linked. It is noted down, and
goes to itself for the time being. The invariant is that a jump which does not fit is noted down,
for this body or for one further out (`Program.Consistent`), so that when the list of a body has
been gone through, all jumps fit that are not waiting further out.

Resolving a jump changes the kind of a single statement from one jump to another. Parents stay,
labels stay labels, and so a jump that fits goes on to fit while others are resolved
(`Link.resolves_forM`). That the label is in a sequence around the jump is checked by the linker
itself, by going from parent to parent, and is only translated here (`Link.gotoFits_of_canJump`).
-/

namespace TreeMachine

namespace Link

variable {α : Type} {l l' : Linker}

/-- A jump is resolved to the label of its name, if it can jump there. -/
theorem gives_resolveJump {jump : StmtId × String} {u : Unit}
    (h : (resolveJump jump).Gives l u l') :
    ∃ target, l.labels.lookup jump.2 = some target ∧ l.program.canJump jump.1 target = true ∧
      l' = putKind l jump.1 (.goto target) := by
  simp only [resolveJump, gives_bind, gives_get] at h
  obtain ⟨_, _, ⟨rfl, rfl⟩, h⟩ := h
  split at h
  · exact absurd h not_gives_throw
  · rename_i target ht
    split at h
    · rename_i hc
      exact ⟨target, ht, hc, gives_setKind.1 h⟩
    · exact absurd h not_gives_throw

/-- Setting the target of a jump keeps all statements. -/
theorem keeps_putKind_goto {i : StmtId} {s : Stmt} (hs : l.program.stmt? i = some s)
    (hg : s.kind.isGoto = true) (target : StmtId) :
    l.program.Keeps 0 (putKind l i (.goto target)).program := by
  refine ⟨fun j s' _ h => ?_, fun _ _ h => h, fun _ f h => ⟨f.body, h⟩⟩
  by_cases hj : j = i
  · subst hj
    rw [hs] at h
    cases h
    refine ⟨.goto target, .inr ⟨hg, rfl⟩, ?_⟩
    rw [stmt?_putKind, if_pos rfl, hs]
    rfl
  · exact ⟨s'.kind, .refl _, by rw [stmt?_putKind, if_neg hj, h]⟩

/-- What can be jumped to is the target of a jump that fits. -/
theorem gotoFits_of_canJump {p : Program} {i target : StmtId} {s : Stmt} {name : String}
    (hs : p.stmt? target = some s) (hk : s.kind = .label name)
    (hc : p.canJump i target = true) : p.GotoFits i target := by
  refine ⟨s, name, hs, hk, fun q hq => ?_⟩
  have hp : p.parent? target = some q := by rw [Program.parent?_eq hs, hq]
  rw [Program.canJump, hp] at hc
  exact Program.encloses_of_mem_enclosing (List.contains_iff_mem.1 hc)

/-- What resolving jumps does: the jumps of the list fit, and the others are as they were. -/
structure Resolves (js : List (StmtId × String)) (l l' : Linker) : Prop where
  grows : l.program.Grows l'.program
  labels : l'.labels = l.labels
  jumps : l'.jumps = l.jumps
  mark : l'.mark = l.mark
  goto : ∀ i s target, l'.program.stmt? i = some s → s.kind = .goto target →
    l'.program.GotoFits i target ∨
      ((∀ b ∈ js, b.1 ≠ i) ∧ ∃ s₀, l.program.stmt? i = some s₀ ∧ s₀.kind = .goto target)

/-- **The jumps of a list are resolved** one after the other, when all labels and jumps are of their
kinds. -/
theorem resolves_forM {js : List (StmtId × String)} {u : Unit}
    (hlabels : ∀ b ∈ l.labels, ∃ s, l.program.stmt? b.2 = some s ∧ s.kind = .label b.1)
    (hjumps : ∀ b ∈ js, ∃ s, l.program.stmt? b.1 = some s ∧ s.kind.isGoto = true)
    (h : (js.forM resolveJump).Gives l u l') : Resolves js l l' := by
  induction js generalizing l with
  | nil =>
    obtain ⟨-, rfl⟩ := gives_pure.1 (show (pure () : Link Unit).Gives l u l' from h)
    exact ⟨.refl _, rfl, rfl, rfl, fun i s target hs hk => .inr ⟨by simp, s, hs, hk⟩⟩
  | cons j js ih =>
    obtain ⟨_, l₁, h₁, hrest⟩ :=
      gives_bind.1 (show (resolveJump j >>= fun _ => js.forM resolveJump).Gives l u l' from h)
    obtain ⟨target, ht, hc, rfl⟩ := gives_resolveJump h₁
    obtain ⟨s, hs, hg⟩ := hjumps j List.mem_cons_self
    have hkeeps := keeps_putKind_goto hs hg target
    have hplaces := hkeeps.places
    -- The label that was found is one of the body, so the jump fits from now on.
    have hfits : (putKind l j.1 (.goto target)).program.GotoFits j.1 target := by
      obtain ⟨ls, rs, hls, -⟩ := List.lookup_eq_some_iff.1 ht
      obtain ⟨st, hst, hkt⟩ := hlabels (j.2, target) (by simp [hls])
      exact hplaces.gotoFits (gotoFits_of_canJump hst hkt hc)
    have htail := ih (l := putKind l j.1 (.goto target))
      (fun b hb => by
        obtain ⟨sb, hsb, hkb⟩ := hlabels b hb
        obtain ⟨s', hs', -, hl, -⟩ := hplaces _ sb hsb
        exact ⟨s', hs', hl _ hkb⟩)
      (fun b hb => by
        obtain ⟨sb, hsb, hkb⟩ := hjumps b (List.mem_cons_of_mem _ hb)
        obtain ⟨s', hs', -, -, hg'⟩ := hplaces _ sb hsb
        exact ⟨s', hs', hg' hkb⟩)
      hrest
    have hgrows : l.program.Grows (putKind l j.1 (.goto target)).program :=
      ⟨hkeeps, Nat.le_refl _, rfl⟩
    refine ⟨hgrows.trans htail.grows, htail.labels, htail.jumps, htail.mark.trans ?_, ?_⟩
    · simp [Linker.mark, putKind]
    · intro i si t hsi hki
      rcases htail.goto i si t hsi hki with hfit | ⟨hnot, s₀, hs₀, hk₀⟩
      · exact .inl hfit
      · rw [stmt?_putKind] at hs₀
        split at hs₀
        · rename_i hij
          subst hij
          obtain ⟨s₁, -, rfl⟩ := Option.map_eq_some_iff.1 hs₀
          cases hk₀
          exact .inl (htail.grows.keeps.places.gotoFits hfits)
        · rename_i hij
          refine .inr ⟨fun b hb => ?_, s₀, hs₀, hk₀⟩
          rcases List.mem_cons.1 hb with rfl | hb
          · exact Ne.symm hij
          · exact hnot b hb

theorem gives_withBody {x : Link α} {a : α} (h : (withBody x).Gives l a l') :
    ∃ l₁ l₂, x.Gives { l with labels := [], jumps := [] } a l₁ ∧
      (l₁.jumps.reverse.forM resolveJump).Gives l₁ () l₂ ∧
      l' = { l₂ with labels := l.labels, jumps := l.jumps } := by
  simp only [withBody, gives_bind, gives_get, gives_modify, gives_pure] at h
  obtain ⟨_, _, ⟨rfl, rfl⟩, _, _, rfl, b, l₁, hx, _, _, ⟨rfl, rfl⟩, _, l₂, hj, _, _, rfl, rfl,
    rfl⟩ := h
  exact ⟨_, l₂, hx, hj, rfl⟩

/-- **Linking a body** leaves no jump of its own behind that does not fit. -/
theorem advances_withBody {x : Link α} {a : α} (h : (withBody x).Gives l a l')
    (hx : ∀ l₁, x.Gives { l with labels := [], jumps := [] } a l₁ →
      Advances { l with labels := [], jumps := [] } l₁) :
    Advances l l' ∧ ∃ l₁, x.Gives { l with labels := [], jumps := [] } a l₁ ∧
      l₁.program.Keeps 0 l'.program ∧ l'.mark = l₁.mark := by
  obtain ⟨l₁, l₂, h₁, h₂, rfl⟩ := gives_withBody h
  obtain ⟨hgrows, hcons⟩ := hx l₁ h₁
  -- The inner labels and jumps are of their kinds whatever is noted down further out.
  have hinner : l₁.program.Consistent (fun _ => True) l₁.labels l₁.jumps :=
    hcons _ ⟨by simp, by simp, fun _ _ _ _ _ => .inr (.inr trivial)⟩
  have hres : Resolves l₁.jumps.reverse l₁ l₂ :=
    resolves_forM hinner.label (fun b hb => hinner.jump b (List.mem_reverse.1 hb)) h₂
  have hplaces : l.program.KeepsPlaces l₂.program := (hgrows.trans hres.grows).keeps.places
  refine ⟨⟨hgrows.trans hres.grows, fun outer hc => ⟨fun b hb => ?_, fun b hb => ?_, ?_⟩⟩,
    l₁, h₁, hres.grows.keeps, hres.mark⟩
  · obtain ⟨s, hs, hk⟩ := hc.label b hb
    obtain ⟨s', hs', -, hl, -⟩ := hplaces _ s hs
    exact ⟨s', hs', hl _ hk⟩
  · obtain ⟨s, hs, hk⟩ := hc.jump b hb
    obtain ⟨s', hs', -, -, hg⟩ := hplaces _ s hs
    exact ⟨s', hs', hg hk⟩
  · intro i s target hs hk
    -- Inside, the jumps noted down so far count as jumps further out.
    have houter := hcons (fun i => (∃ b ∈ l.jumps, b.1 = i) ∨ outer i)
      ⟨by simp, by simp, fun i s t hs hk => (hc.goto i s t hs hk).imp_right .inr⟩
    rcases hres.goto i s target hs hk with hfit | ⟨hnot, s₀, hs₀, hk₀⟩
    · exact .inl hfit
    · rcases houter.goto i s₀ target hs₀ hk₀ with hfit | ⟨b, hb, rfl⟩ | hout
      · exact .inl (hres.grows.keeps.places.gotoFits hfit)
      · exact absurd rfl (hnot b (List.mem_reverse.2 hb))
      · exact .inr hout

end Link

end TreeMachine
