import De1Soc.Driver.Machine

/-!
# De1Soc.Driver.UserMem

The ioctls on user memory.

User memory is a map from addresses to bytes; an address without a byte is not
mapped.  An execution `Follows` a memory when each of its user accesses is
answered from it and leaves what the access makes of it.

The ioctl numbers declare a `u8` argument, and `get_user` and `put_user` go
through a `uint32_t *`: the four bytes from the argument address on.  So
`IOC_GET_LEDS` also clears the three bytes behind the one it is asked for, and
`IOC_SET_SPEED` and `IOC_SET_MODE` fail where one of these is not mapped
(`user_byte_iff`).
-/

namespace De1Soc

open Kernel

/-- User memory. -/
abbrev UserMem := BitVec 32 → Option (BitVec 8)

namespace UserMem

/-- The little-endian word at `a`, where all of its bytes are mapped. -/
def word (m : UserMem) (a : BitVec 32) : Option (BitVec 32) := do
  let b0 ← m a
  let b1 ← m (a + 1)
  let b2 ← m (a + 2)
  let b3 ← m (a + 3)
  return b3 ++ b2 ++ b1 ++ b0

/-- The memory with the word `x` stored at `a`. -/
def putWord (m : UserMem) (a x : BitVec 32) : UserMem :=
  Function.update (Function.update (Function.update (Function.update m
    a (some (x.extractLsb' 0 8)))
    (a + 1) (some (x.extractLsb' 8 8)))
    (a + 2) (some (x.extractLsb' 16 8)))
    (a + 3) (some (x.extractLsb' 24 8))

/-- How the memory answers a user access: an access to a byte that is not mapped
faults, and one of four bytes is made as a whole. -/
def reply (m : UserMem) : (q : UserOp) → user.Res q
  | .getUser arg => m.word arg
  | .putUser arg _ => (m.word arg).isNone
  | .copyFromUser src => m src
  | .copyToUser dst _ => (m dst).isNone

/-- The memory after an operation. -/
def after (m : UserMem) : DriverOp → UserMem
  | .ask (.putUser arg x) false => m.putWord arg x
  | .ask (.copyToUser dst x) false => Function.update m dst (some x)
  | _ => m

/-- The operation, if it is a user access, is answered from the memory. -/
def Answers (m : UserMem) : DriverOp → Prop
  | .ask q x => x = m.reply q
  | _ => True

/-- The operations are answered from the memory as it is at their time. -/
def Follows (m : UserMem) : List DriverOp → Prop
  | [] => True
  | o :: os => m.Answers o ∧ (m.after o).Follows os

/-- The memory after operations. -/
def afterAll (m : UserMem) (os : List DriverOp) : UserMem := os.foldl after m

/-! ## Words -/

variable {m : UserMem} {a : BitVec 32}

/-- A word is there when its four bytes are. -/
theorem word_eq_some_iff {x : BitVec 32} :
    m.word a = some x ↔ ∃ b0 b1 b2 b3, m a = some b0 ∧ m (a + 1) = some b1 ∧
      m (a + 2) = some b2 ∧ m (a + 3) = some b3 ∧ x = b3 ++ b2 ++ b1 ++ b0 := by
  unfold word
  cases h0 : m a <;> cases h1 : m (a + 1) <;> cases h2 : m (a + 2) <;> cases h3 : m (a + 3) <;>
    simp [eq_comm]

/-- The low byte of a word is the byte at its address. -/
theorem byte_of_word {x : BitVec 32} (h : m.word a = some x) : m a = some (x.setWidth 8) := by
  obtain ⟨b0, b1, b2, b3, h0, _, _, _, rfl⟩ := word_eq_some_iff.mp h
  rw [h0, BitVec.setWidth_append]
  simp

/-- A byte stored as a word clears the three bytes behind it. -/
theorem putWord_setWidth (b : BitVec 8) (p : BitVec 32) :
    m.putWord a (b.setWidth 32) p =
      if p = a + 3 ∨ p = a + 2 ∨ p = a + 1 then some 0 else if p = a then some b else m p := by
  have hlow : (b.setWidth 32).extractLsb' 0 8 = b := by
    ext i hi
    rw [BitVec.getElem_extractLsb', BitVec.getLsbD_setWidth, Nat.zero_add,
      BitVec.getLsbD_eq_getElem hi, decide_eq_true (by omega), Bool.true_and]
  have hhigh : ∀ k, 8 ≤ k → (b.setWidth 32).extractLsb' k 8 = 0 := by
    intro k hk
    ext i hi
    rw [BitVec.getElem_extractLsb', BitVec.getLsbD_setWidth, BitVec.getLsbD_of_ge b _ (by omega),
      Bool.and_false]
    exact (BitVec.getElem_zero hi).symm
  simp only [putWord, Function.update_apply, hlow, hhigh 8 (by omega), hhigh 16 (by omega),
    hhigh 24 (by omega)]
  by_cases h3 : p = a + 3
  · rw [if_pos h3, if_pos (.inl h3)]
  · rw [if_neg h3]
    by_cases h2 : p = a + 2
    · rw [if_pos h2, if_pos (.inr (.inl h2))]
    · rw [if_neg h2]
      by_cases h1 : p = a + 1
      · rw [if_pos h1, if_pos (.inr (.inr h1))]
      · rw [if_neg h1, if_neg (not_or.mpr ⟨h3, not_or.mpr ⟨h2, h1⟩⟩)]

/-- A byte stored as a word changes no other byte exactly when the three bytes
behind it are zero already. -/
theorem putWord_frame_iff (b : BitVec 8) :
    (∀ p, p ≠ a → m.putWord a (b.setWidth 32) p = m p) ↔
      m (a + 1) = some 0 ∧ m (a + 2) = some 0 ∧ m (a + 3) = some 0 := by
  simp only [putWord_setWidth]
  constructor
  · intro h
    have h1 := h (a + 1) (by bv_omega)
    have h2 := h (a + 2) (by bv_omega)
    have h3 := h (a + 3) (by bv_omega)
    rw [if_pos (.inr (.inr rfl))] at h1
    rw [if_pos (.inr (.inl rfl))] at h2
    rw [if_pos (.inl rfl)] at h3
    exact ⟨h1.symm, h2.symm, h3.symm⟩
  · rintro ⟨h1, h2, h3⟩ p hp
    split
    · next hmem =>
        obtain rfl | rfl | rfl := hmem
        · exact h3.symm
        · exact h2.symm
        · exact h1.symm
    · rfl

end UserMem

/-! ## The accesses of the commands -/

section Commands

variable {w w' : Shared Mem} {arg : BitVec 32} {os : List DriverOp} {cs : List Cycle} {r : Int}

/-- `IOC_GET_LEDS` ends at the semaphore or makes one `put_user` of a byte. -/
def getLedsRule (arg : BitVec 32) : Rule user io Int where
  ok _ _ := True
  fin ops _ := ops = [.down true] ∨ ∃ (x : BitVec 8) (fault : Bool),
    ops = [.up, .ask (.putUser arg (x.setWidth 32)) fault, .io (.ioread8 false) x,
      .io (.incr .ioctlCount) (), .down false]

theorem blinkerDevIoctl_getLeds_obeys (arg : BitVec 32) :
    (blinkerDevIoctl .getLeds arg).Obeys (getLedsRule arg) [] := by
  simp [blinkerDevIoctl, getLedsRule]

theorem ops_of_getLeds (hx : Exec machine w (blinkerDevIoctl .getLeds arg) os cs r w') :
    os = [.down true] ∨ ∃ (x : BitVec 8) (fault : Bool),
      os = [.down false, .io (.incr .ioctlCount) (), .io (.ioread8 false) x,
        .ask (.putUser arg (x.setWidth 32)) fault, .up] := by
  have hfin := hx.fin (blinkerDevIoctl_getLeds_obeys arg)
  rw [List.append_nil] at hfin
  obtain hdown | ⟨x, fault, hops⟩ := hfin
  · exact .inl (by simpa using congrArg List.reverse hdown)
  · exact .inr ⟨x, fault, by simpa using congrArg List.reverse hops⟩

/-- **What `IOC_GET_LEDS` leaves of the other bytes.** -/
theorem getLeds_frame_iff {m : UserMem}
    (hx : Exec machine w (blinkerDevIoctl .getLeds arg) os cs r w') (hm : m.Follows os) :
    (∀ a, a ≠ arg → m.afterAll os a = m a) ↔
      .down true ∈ os ∨ m.word arg = none ∨
        (m (arg + 1) = some 0 ∧ m (arg + 2) = some 0 ∧ m (arg + 3) = some 0) := by
  obtain rfl | ⟨x, fault, rfl⟩ := ops_of_getLeds hx
  · exact iff_of_true (fun a _ => rfl) (.inl (by simp))
  · have hfault : fault = (m.word arg).isNone := hm.2.2.2.1
    cases hword : m.word arg with
    | none =>
        rw [hword] at hfault
        subst hfault
        exact iff_of_true (fun a _ => rfl) (.inr (.inl rfl))
    | some v =>
        rw [hword] at hfault
        subst hfault
        have hafter : m.afterAll [.down false, .io (.incr .ioctlCount) (), .io (.ioread8 false) x,
            .ask (.putUser arg (x.setWidth 32)) false, .up] = m.putWord arg (x.setWidth 32) := rfl
        simp only [Option.isNone_some] at hm ⊢
        rw [hafter, UserMem.putWord_frame_iff]
        simp

/-- The commands that take a byte from user memory. -/
def Cmd.TakesByte (cmd : Cmd) : Prop := cmd = .setSpeed ∨ cmd = .setMode

/-- Such a command leaves user memory, reports a fault only where `get_user`
did, and makes no user access where a signal ended it at the semaphore. -/
def takesByteRule (arg : BitVec 32) : Rule user io Int where
  ok _ _ := True
  fin ops r := (∀ o ∈ ops, ∀ m : UserMem, m.after o = m) ∧
    (r = -EFAULT → .ask (.getUser arg) none ∈ ops) ∧
    (.down true ∈ ops → ops = [.down true])

theorem blinkerDevIoctl_takesByte_obeys {cmd : Cmd} (h : cmd.TakesByte) (arg : BitVec 32) :
    (blinkerDevIoctl cmd arg).Obeys (takesByteRule arg) [] := by
  obtain rfl | rfl := h
  · simp [blinkerDevIoctl, takesByteRule, Option.forall, UserMem.after]
  · simp [blinkerDevIoctl, takesByteRule, Option.forall, UserMem.after]

theorem UserMem.answers_iff {m : UserMem} {o : DriverOp} :
    m.Answers o ↔ ∀ q x, o = .ask q x → x = m.reply q := by
  cases o with
  | ask q x =>
      constructor
      · intro h q' x' ho
        cases ho
        exact h
      · intro h
        exact h q x rfl
  | _ => simp [Answers]

/-- Where no operation stores, following a memory is being answered by it. -/
theorem UserMem.follows_iff {m : UserMem} (h : ∀ o ∈ os, ∀ m : UserMem, m.after o = m) :
    m.Follows os ↔ AnsweredBy m.reply os := by
  induction os with
  | nil => simp [Follows, AnsweredBy]
  | cons o os ih =>
      rw [List.forall_mem_cons] at h
      rw [Follows, answeredBy_cons, answers_iff, h.1 m, ih h.2]

/-- The command on the memory `m` can return `r` over the cycles `cs` and leave
`w'`. -/
def CanEnd (m : UserMem) (w : Shared Mem) (cmd : Cmd) (arg : BitVec 32) (cs : List Cycle) (r : Int)
    (w' : Shared Mem) : Prop :=
  ∃ os, Exec machine w (blinkerDevIoctl cmd arg) os cs r w' ∧ m.Follows os

theorem canEnd_iff {m : UserMem} {cmd : Cmd} (h : cmd.TakesByte) :
    CanEnd m w cmd arg cs r w' ↔
      ∃ os, Exec machine w ((blinkerDevIoctl cmd arg).fill m.reply) os cs r w' := by
  rw [← exec_fill_iff, CanEnd]
  have hstores : ∀ os, Exec machine w (blinkerDevIoctl cmd arg) os cs r w' →
      ∀ o ∈ os, ∀ m : UserMem, m.after o = m := by
    intro os hx o ho
    exact (hx.fin (blinkerDevIoctl_takesByte_obeys h arg)).1 o (by simpa using ho)
  constructor
  · rintro ⟨os, hx, hm⟩
    exact ⟨os, hx, (UserMem.follows_iff (hstores os hx)).mp hm⟩
  · rintro ⟨os, hx, hm⟩
    exact ⟨os, hx, (UserMem.follows_iff (hstores os hx)).mpr hm⟩

/-- The command depends on the word through its low byte only. -/
theorem fill_eq_of_word {m m' : UserMem} {cmd : Cmd} (h : cmd.TakesByte)
    (hbyte : m arg = m' arg) (hword : m.word arg = none ↔ m'.word arg = none) :
    (blinkerDevIoctl cmd arg).fill m.reply = (blinkerDevIoctl cmd arg).fill m'.reply := by
  cases hm : m.word arg with
  | none =>
      have hm' : m'.word arg = none := hword.mp hm
      obtain rfl | rfl := h
      · simp [blinkerDevIoctl, UserMem.reply, hm, hm']
      · simp [blinkerDevIoctl, UserMem.reply, hm, hm']
  | some x =>
      obtain ⟨x', hm'⟩ : ∃ x', m'.word arg = some x' := by
        rw [← Option.ne_none_iff_exists']
        intro hm'
        rw [hword.mpr hm'] at hm
        contradiction
      have hlow : x.setWidth 8 = x'.setWidth 8 := by
        rw [UserMem.byte_of_word hm, UserMem.byte_of_word hm'] at hbyte
        exact Option.some.inj hbyte
      obtain rfl | rfl := h
      · simp only [blinkerDevIoctl, downInterruptible, incr, getUser, Prog.bind_eq, Prog.bind,
          Prog.fill, Prog.fill_ite, UserMem.reply, hm, hm']
        rw [hlow]
        rfl
      · simp only [blinkerDevIoctl, downInterruptible, incr, getUser, Prog.bind_eq, Prog.bind,
          Prog.fill, Prog.fill_ite, UserMem.reply, hm, hm']
        rw [hlow]
        rfl

/-- With the semaphore free a fault is reported. -/
theorem exists_canEnd_fault {m : UserMem} {cmd : Cmd} (h : cmd.TakesByte) (hsem : 0 < w.sem)
    (hm : m.word arg = none) : ∃ cs w', CanEnd m w cmd arg cs (-EFAULT) w' := by
  simp only [canEnd_iff h]
  have hsolo : ∃ x, solo (userHolding 0) runner ((blinkerDevIoctl cmd arg).fill m.reply) w =
      some x ∧ x.2.2.1 = -EFAULT := by
    obtain rfl | rfl := h
    · simp [blinkerDevIoctl, UserMem.reply, hm, solo, userHolding, hsem, Outcome.cons]
    · simp [blinkerDevIoctl, UserMem.reply, hm, solo, userHolding, hsem, Outcome.cons]
  obtain ⟨⟨os, cs, r, w'⟩, hx, rfl⟩ := hsolo
  exact ⟨cs, w', os, (valid_of_solo runner_quiet hx).1⟩

/-- A mapped word is not reported as a fault. -/
theorem not_canEnd_fault {m : UserMem} {cmd : Cmd} (h : cmd.TakesByte) (hm : m.word arg ≠ none) :
    ¬ CanEnd m w cmd arg cs (-EFAULT) w' := by
  rintro ⟨os, hx, hfol⟩
  obtain ⟨hstores, hfault, _⟩ := hx.fin (blinkerDevIoctl_takesByte_obeys h arg)
  have hmem : .ask (.getUser arg) none ∈ os := by simpa using hfault rfl
  have hans := (UserMem.follows_iff (by simpa using hstores)).mp hfol
  exact hm (hans _ _ hmem).symm

/-- With the semaphore taken the memory makes no difference. -/
theorem canEnd_of_sem_zero {m m' : UserMem} {cmd : Cmd} (h : cmd.TakesByte) (hsem : w.sem = 0)
    (hc : CanEnd m w cmd arg cs r w') : CanEnd m' w cmd arg cs r w' := by
  obtain ⟨os, hx, _⟩ := hc
  have hdown : .down true ∈ os := by
    obtain rfl | rfl := h
    · exact hx.down_of_sem_zero hsem
    · exact hx.down_of_sem_zero hsem
  obtain ⟨_, _, hend⟩ := hx.fin (blinkerDevIoctl_takesByte_obeys h arg)
  have hos : os = [.down true] := by
    simpa using congrArg List.reverse (hend (by simpa using hdown))
  refine ⟨os, hx, ?_⟩
  rw [hos]
  exact ⟨trivial, trivial⟩

/-- **Whether the neighbours of the byte make a difference.** -/
theorem canEnd_congr_iff {m m' : UserMem} {cmd : Cmd} (h : cmd.TakesByte) (hbyte : m arg = m' arg) :
    (∀ cs r w', CanEnd m w cmd arg cs r w' ↔ CanEnd m' w cmd arg cs r w') ↔
      w.sem = 0 ∨ (m.word arg = none ↔ m'.word arg = none) := by
  constructor
  · intro hsame
    by_cases hsem : w.sem = 0
    · exact .inl hsem
    · refine .inr ⟨fun hm => ?_, fun hm' => ?_⟩
      · by_contra hm'
        obtain ⟨cs, w', hc⟩ := exists_canEnd_fault h (Nat.pos_of_ne_zero hsem) hm
        exact not_canEnd_fault h hm' ((hsame cs _ w').mp hc)
      · by_contra hm
        obtain ⟨cs, w', hc⟩ := exists_canEnd_fault h (Nat.pos_of_ne_zero hsem) hm'
        exact not_canEnd_fault h hm ((hsame cs _ w').mpr hc)
  · rintro (hsem | hword) cs r w'
    · exact ⟨canEnd_of_sem_zero h hsem, canEnd_of_sem_zero h hsem⟩
    · rw [canEnd_iff h, canEnd_iff h, fill_eq_of_word h hbyte hword]

end Commands

/-- **The ioctls and the user byte they declare.**  `IOC_GET_LEDS` leaves every
byte but the one at the argument address exactly when it does not come to its
store or the three bytes behind are zero already; `IOC_SET_SPEED` and
`IOC_SET_MODE` end alike on two memories that agree on the byte at the argument
address exactly when both memories have all four bytes there or neither has
(or the semaphore is taken and they do not come to the access). -/
theorem user_byte_iff (m m' : UserMem) (arg : BitVec 32) (w : Shared Mem) :
    (∀ os cs r w', Exec machine w (blinkerDevIoctl .getLeds arg) os cs r w' → m.Follows os →
      ((∀ a, a ≠ arg → m.afterAll os a = m a) ↔
        .down true ∈ os ∨ m.word arg = none ∨
          (m (arg + 1) = some 0 ∧ m (arg + 2) = some 0 ∧ m (arg + 3) = some 0))) ∧
    ∀ cmd : Cmd, cmd = .setSpeed ∨ cmd = .setMode → m arg = m' arg →
      ((∀ cs r w', CanEnd m w cmd arg cs r w' ↔ CanEnd m' w cmd arg cs r w') ↔
        w.sem = 0 ∨ (m.word arg = none ↔ m'.word arg = none)) := by
  constructor
  · intro os cs r w' hx hm
    exact getLeds_frame_iff hx hm
  · intro cmd hcmd hbyte
    exact canEnd_congr_iff hcmd hbyte

/-- A memory of four bytes from address 0 on, the second of them 255. -/
def fourBytes : UserMem := fun a =>
  if a = 0 then some 1 else if a = 1 then some 255 else if a < 4 then some 0 else none

/-- The same byte at address 0, at the end of a mapping. -/
def lastByte : UserMem := fun a => if a = 0 then some 1 else none

/-- `IOC_GET_LEDS` clears the byte behind, and `IOC_SET_SPEED` of the same byte
succeeds on one memory and faults on the other. -/
theorem user_byte_fails :
    (∃ os cs w', Exec machine (probed .reset) (blinkerDevIoctl .getLeds 0) os cs 0 w' ∧
      fourBytes.Follows os ∧ fourBytes 1 = some 255 ∧ fourBytes.afterAll os 1 = some 0) ∧
    fourBytes 0 = lastByte 0 ∧
    ¬ ∀ cs r w', CanEnd fourBytes (probed .reset) .setSpeed 0 cs r w' ↔
      CanEnd lastByte (probed .reset) .setSpeed 0 cs r w' := by
  refine ⟨?_, by decide, fun hsame => ?_⟩
  · have hsolo : ∃ x, solo ⟨false, fourBytes.reply⟩ runner (blinkerDevIoctl .getLeds 0)
        (probed .reset) = some x ∧ x.2.2.1 = 0 ∧ fourBytes.Follows x.1 ∧
        fourBytes.afterAll x.1 1 = some 0 := by
      refine ⟨_, rfl, rfl, ?_, by decide⟩
      exact ⟨trivial, trivial, trivial, rfl, trivial, trivial⟩
    obtain ⟨⟨os, cs, r, w'⟩, hx, rfl, hfol, hclear⟩ := hsolo
    exact ⟨os, cs, w', (valid_of_solo runner_quiet hx).1, hfol, by decide, hclear⟩
  · rw [canEnd_congr_iff (.inl rfl) (by decide)] at hsame
    exact absurd hsame (by decide)

end De1Soc
