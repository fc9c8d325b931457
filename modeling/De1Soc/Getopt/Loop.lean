import De1Soc.Getopt.Scan

/-!
# De1Soc.Getopt.Loop

The loop around `getopt_long`: call it until it returns `-1` and handle each
option as it comes.

A handler may end the loop early, so `loop` returns the tokens it came to
together with the result.  `loop_eq` says that this is the monadic fold of the
handler over the tokens of `decode`, and that the loop comes to an end.
-/

namespace Getopt

variable {σ ε : Type}

/-- The loop, for `fuel` calls at most: the tokens it came to, and how it
ended. -/
def loop (opts : Options) (handle : σ → Token → Except ε σ) :
    Nat → State → σ → Option (List Token × Except ε (σ × State))
  | 0, _, _ => none
  | fuel + 1, st, s =>
      match getoptLong opts st with
      | (none, st') => some ([], .ok (s, st'))
      | (some t, st') =>
          match handle s t with
          | .error e => some ([t], .error e)
          | .ok s' => (loop opts handle fuel st' s').map fun r => (t :: r.1, r.2)

/-- The tokens up to the first one whose handler fails. -/
def reached (handle : σ → Token → Except ε σ) : σ → List Token → List Token
  | _, [] => []
  | s, t :: ts =>
      match handle s t with
      | .error _ => [t]
      | .ok s' => t :: reached handle s' ts

/-- A token with `Q` comes, and all tokens before it have `P`. -/
def Comes (P Q : Token → Prop) (ts : List Token) : Prop :=
  ∃ pre t post, ts = pre ++ t :: post ∧ (∀ u ∈ pre, P u) ∧ Q t

theorem not_comes_nil (P Q : Token → Prop) : ¬ Comes P Q [] := by
  rintro ⟨pre, t, post, h, _⟩
  simp at h

/-- It is the first token, or it comes behind it. -/
theorem comes_cons {P Q : Token → Prop} {t : Token} {ts : List Token} :
    Comes P Q (t :: ts) ↔ Q t ∨ P t ∧ Comes P Q ts := by
  constructor
  · rintro ⟨pre, t', post, heq, hpre, ht'⟩
    cases pre with
    | nil => exact .inl ((List.cons.inj heq).1 ▸ ht')
    | cons u pre =>
        obtain ⟨rfl, hts⟩ := List.cons.inj heq
        rw [List.forall_mem_cons] at hpre
        exact .inr ⟨hpre.1, pre, t', post, hts, hpre.2, ht'⟩
  · rintro (ht | ⟨ht, pre, t', post, rfl, hpre, ht'⟩)
    · exact ⟨[], t, ts, rfl, by simp, ht⟩
    · exact ⟨t :: pre, t', post, rfl, List.forall_mem_cons.mpr ⟨ht, hpre⟩, ht'⟩

/-- A token is reached when no token before it ends the loop. -/
theorem mem_reached_iff {handle : σ → Token → Except ε σ} {ends : Token → Prop} {ts : List Token}
    (hends : ∀ s, ∀ t ∈ ts, (∃ e, handle s t = .error e) ↔ ends t) (s : σ) (t : Token) :
    t ∈ reached handle s ts ↔ Comes (¬ ends ·) (t = ·) ts := by
  induction ts generalizing s with
  | nil => simpa [reached] using not_comes_nil _ _
  | cons t' ts ih =>
      have hfirst := hends s t' (by simp)
      have hrest : ∀ s, ∀ t ∈ ts, (∃ e, handle s t = .error e) ↔ ends t :=
        fun s t ht => hends s t (by simp [ht])
      rw [comes_cons, reached]
      cases hstep : handle s t' with
      | error e =>
          have hend : ends t' := hfirst.mp ⟨e, hstep⟩
          simp [hend]
      | ok s' =>
          have hend : ¬ ends t' := fun hend => by
            obtain ⟨e, he⟩ := hfirst.mpr hend
            rw [hstep] at he
            contradiction
          simp [hend, ih hrest s']

/-- The arguments from `optind` on. -/
def State.left (st : State) : List (List Char) := st.argv.drop st.optind

/-- The result of the loop, with the arguments that are left. -/
def withLeft (r : Except ε (σ × State)) : Except ε (σ × List (List Char)) :=
  r.map fun x => (x.1, x.2.left)

section Decode

variable (opts : Options) (handle : σ → Token → Except ε σ)

/-- **The loop** handles the tokens of the command line in their order. -/
theorem loop_eq_future {st : State} {sk rest : List (List Char)} (h : Scanning st sk rest) (s : σ)
    {fuel : Nat} (hfuel : size st.nextchar rest < fuel) :
    (loop opts handle fuel st s).map (fun r => (r.1, withLeft r.2)) =
      some (reached handle s (future opts st.nextchar rest).1,
        ((future opts st.nextchar rest).1.foldlM handle s).map
          (·, sk ++ (future opts st.nextchar rest).2)) := by
  -- every call makes the future smaller, so the fuel lasts
  induction fuel generalizing st sk rest s with
  | zero => omega
  | succ fuel ih =>
      rw [loop]
      rcases getoptLong_spec opts h with ⟨t, sk', rest', ht, hscan, htokens, hothers, hsize⟩ |
        ⟨hnone, htokens, hleft⟩
      · obtain ⟨st', hst'⟩ : ∃ st', getoptLong opts st = (some t, st') := ⟨_, Prod.ext ht rfl⟩
        rw [hst'] at hscan htokens hothers hsize
        simp only [hst', htokens, reached, List.foldlM_cons]
        cases hstep : handle s t with
        | error e => rfl
        | ok s' =>
            have htail := ih hscan s' (by omega)
            rw [hothers] at htail
            cases hloop : loop opts handle fuel st' s' with
            | none => simp [hloop] at htail
            | some r =>
                simp only [hloop, Option.map_some, Option.some.injEq, Prod.mk.injEq] at htail ⊢
                exact ⟨by rw [htail.1], htail.2⟩
      · obtain ⟨st', hst'⟩ : ∃ st', getoptLong opts st = (none, st') := ⟨_, Prod.ext hnone rfl⟩
        rw [hst'] at hleft
        simp only [hst', htokens, ← hleft]
        rfl

end Decode

/-- Before the first call everything behind the program's name is to come. -/
theorem scanning_init (a : List Char) (rest : List (List Char)) :
    Scanning (State.init (a :: rest)) [] rest :=
  ⟨[a], [], [], by simp [State.init], by simp, rfl, rfl, rfl, rfl⟩

/-- **The loop over a whole command line.** -/
theorem loop_eq (opts : Options) (handle : σ → Token → Except ε σ) (argv : List (List Char)) (s : σ)
    {fuel : Nat} (hfuel : weight argv < fuel) :
    (loop opts handle fuel (State.init argv) s).map (fun r => (r.1, withLeft r.2)) =
      some (reached handle s (decode opts false argv.tail).1,
        ((decode opts false argv.tail).1.foldlM handle s).map
          (·, (decode opts false argv.tail).2)) := by
  cases argv with
  | nil =>
      obtain ⟨fuel, rfl⟩ : ∃ n, fuel = n + 1 := ⟨fuel - 1, by omega⟩
      rfl
  | cons a rest =>
      have hsize : size (State.init (a :: rest)).nextchar rest < fuel := by
        rw [weight_cons] at hfuel
        simp only [State.init, size, List.length_nil]
        omega
      simpa [State.init, future_nil] using loop_eq_future opts handle (scanning_init a rest) s hsize

/-- **What follows the loop** may look at the arguments that are left. -/
theorem loop_bind_eq {α : Type} (opts : Options) (handle : σ → Token → Except ε σ)
    (argv : List (List Char)) (s : σ) {fuel : Nat} (hfuel : weight argv < fuel)
    {next : σ → State → Except ε α} {next' : σ → List (List Char) → Except ε α}
    (hnext : ∀ s st, next s st = next' s st.left) :
    (loop opts handle fuel (State.init argv) s).map
        (fun r => (r.1, r.2.bind fun x => next x.1 x.2)) =
      some (reached handle s (decode opts false argv.tail).1,
        ((decode opts false argv.tail).1.foldlM handle s).bind fun s' =>
          next' s' (decode opts false argv.tail).2) := by
  have hleft : ∀ r : Except ε (σ × State),
      (r.bind fun x => next x.1 x.2) = (withLeft r).bind fun x => next' x.1 x.2 := by
    intro r
    cases r with
    | error e => rfl
    | ok x => exact hnext x.1 x.2
  have hmap : ∀ (r : Except ε σ) (left : List (List Char)),
      ((r.map (·, left)).bind fun x => next' x.1 x.2) = r.bind fun s' => next' s' left := by
    intro r left
    cases r with
    | error e => rfl
    | ok s' => rfl
  have hloop := congrArg (Option.map fun r => (r.1, Except.bind r.2 fun x => next' x.1 x.2))
    (loop_eq opts handle argv s hfuel)
  simpa only [Option.map_map, Option.map_some, Function.comp_def, hleft, hmap] using hloop

end Getopt
