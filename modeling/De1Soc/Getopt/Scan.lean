import De1Soc.Getopt

/-!
# De1Soc.Getopt.Scan

`getopt_long` as it works: one option per call, on an argument vector that it
permutes as it goes.

The state has the vector, `optind`, the letters of a bundle that are still to
come (`nextchar`) and the block of elements that were skipped because they are
no options.  When options follow the block, `exchange` moves it behind them.
`getoptLong_spec` says that every call delivers the next token of `decode`, and
that the last one leaves `optind` before the arguments that are no options.
-/

namespace Getopt

/-- The state of the scanner; the skipped elements are those from `firstNonopt`
up to `lastNonopt`. -/
structure State where
  argv : List (List Char)
  optind : Nat
  nextchar : List Char
  firstNonopt : Nat
  lastNonopt : Nat
deriving DecidableEq, Repr

namespace State

/-- The state before the first call. -/
def init (argv : List (List Char)) : State where
  argv := argv
  optind := 1
  nextchar := []
  firstNonopt := 1
  lastNonopt := 1

/-- The skipped elements and the options behind them change places. -/
def exchange (st : State) : State :=
  { st with
    argv := st.argv.take st.firstNonopt ++ (st.argv.take st.optind).drop st.lastNonopt ++
      (st.argv.take st.lastNonopt).drop st.firstNonopt ++ st.argv.drop st.optind
    firstNonopt := st.firstNonopt + (st.optind - st.lastNonopt)
    lastNonopt := st.optind }

/-- The skipped elements move behind the options that have been scanned since. -/
def permute (st : State) : State :=
  if st.firstNonopt ≠ st.lastNonopt ∧ st.lastNonopt ≠ st.optind then st.exchange
  else if st.lastNonopt ≠ st.optind then { st with firstNonopt := st.optind }
  else st

/-- Elements that are no options are skipped. -/
def skip (st : State) : State :=
  { st with
    optind := st.optind + ((st.argv.drop st.optind).takeWhile isNonoption).length
    lastNonopt := st.optind + ((st.argv.drop st.optind).takeWhile isNonoption).length }

/-- The skipped elements move behind `--`, which has just been passed. -/
def closeBlock (st : State) : State :=
  if st.firstNonopt ≠ st.lastNonopt ∧ st.lastNonopt ≠ st.optind then st.exchange
  else if st.firstNonopt = st.lastNonopt then { st with firstNonopt := st.optind }
  else st

/-- Behind `--` everything is skipped. -/
def terminate (st : State) : State :=
  if (st.argv.drop st.optind).head? = some ['-', '-'] then
    { ({ st with optind := st.optind + 1 } : State).closeBlock with
      lastNonopt := st.argv.length
      optind := st.argv.length }
  else st

/-- The next letter of a bundle. -/
def shortOption (opts : Options) (st : State) : Option Token × State :=
  match st.nextchar with
  | [] => (none, st)
  | c :: cs =>
      let st' := { st with nextchar := cs, optind := if cs = [] then st.optind + 1 else st.optind }
      match shortArg opts.short c with
      | none => (some (.bad none), st')
      | some .no => (some (.opt none c none), st')
      | some .optional =>
          if cs = [] then (some (.opt none c none), st')
          else (some (.opt none c (some cs)), { st' with nextchar := [], optind := st'.optind + 1 })
      | some .required =>
          if cs = [] then
            match (st'.argv.drop st'.optind).head? with
            | none => (some (.bad none), st')
            | some a => (some (.opt none c (some a)), { st' with optind := st'.optind + 1 })
          else (some (.opt none c (some cs)), { st' with nextchar := [], optind := st'.optind + 1 })

/-- A long option, given behind its dashes. -/
def longOption (opts : Options) (st : State) (body : List Char) : Option Token × State :=
  let r := longToken opts (st.argv.drop (st.optind + 1)).head? body
  (some r.1, { st with optind := st.optind + 1 + r.2.toNat, nextchar := [] })

/-- The end of the options: `optind` goes back to the skipped elements. -/
def finish (st : State) : State :=
  if st.firstNonopt ≠ st.lastNonopt then { st with optind := st.firstNonopt } else st

/-- A new element. -/
def element (opts : Options) (st : State) : Option Token × State :=
  match (st.argv.drop st.optind).head? with
  | none => (none, st.finish)
  | some ('-' :: '-' :: body) => st.longOption opts body
  | some a => { st with nextchar := a.tail }.shortOption opts

end State

/-- **One call.**  The result `none` stands for `-1`. -/
def getoptLong (opts : Options) (st : State) : Option Token × State :=
  if st.argv.length < 1 then (none, st)
  else if st.nextchar ≠ [] then st.shortOption opts
  else st.permute.skip.terminate.element opts

/-! ## Where the scanner stands -/

/-- The scanner has skipped `sk` and has still to scan `rest`, behind the element
of `nextchar` if it is inside a bundle. -/
def Scanning (st : State) (sk rest : List (List Char)) : Prop :=
  ∃ pre mid cur, st.argv = pre ++ sk ++ mid ++ cur ++ rest ∧ pre ≠ [] ∧
    st.firstNonopt = pre.length ∧ st.lastNonopt = pre.length + sk.length ∧
    st.optind = pre.length + sk.length + mid.length ∧
    cur.length = if st.nextchar = [] then 0 else 1

/-- What is still to be delivered. -/
def future (opts : Options) (nextchar : List Char) (rest : List (List Char)) :
    List Token × List (List Char) :=
  ((shortTokens opts rest.head? nextchar).1 ++
      (decode opts (shortTokens opts rest.head? nextchar).2 rest).1,
    (decode opts (shortTokens opts rest.head? nextchar).2 rest).2)

/-- The elements and letters that are still to be scanned. -/
def weight : List (List Char) → Nat
  | [] => 0
  | a :: rest => a.length + 1 + weight rest

/-- A bound on the calls that are still to come. -/
def size (nextchar : List Char) (rest : List (List Char)) : Nat := nextchar.length + weight rest

@[simp] theorem weight_nil : weight [] = 0 := rfl

@[simp] theorem weight_cons (a : List Char) (rest : List (List Char)) :
    weight (a :: rest) = a.length + 1 + weight rest := rfl

theorem weight_append (as bs : List (List Char)) : weight (as ++ bs) = weight as + weight bs := by
  induction as with
  | nil => simp
  | cons a as ih =>
      rw [List.cons_append, weight_cons, weight_cons, ih]
      omega

/-! ## Between two elements -/

/-- The scanner stands behind the elements `sk` it has skipped. -/
structure Aligned (st : State) (pre sk rest : List (List Char)) : Prop where
  argv : st.argv = pre ++ sk ++ rest
  ne_nil : pre ≠ []
  first : st.firstNonopt = pre.length
  optind : st.optind = pre.length + sk.length
  nextchar : st.nextchar = []

section Elements

variable {opts : Options} {st : State} {pre sk mid rest : List (List Char)} {a : List Char}

theorem Aligned.drop (h : Aligned st pre sk rest) : st.argv.drop st.optind = rest := by
  rw [h.argv, h.optind, ← List.length_append, List.drop_left]

/-- The scanner has skipped `sk` and stands right behind. -/
theorem Aligned.scanning (h : Aligned st pre sk rest) (hlast : st.lastNonopt = st.optind) :
    Scanning st sk rest := by
  refine ⟨pre, [], [], ?_, h.ne_nil, h.first, ?_, ?_, by simp [h.nextchar]⟩
  · simpa using h.argv
  · rw [hlast, h.optind]
  · simpa using h.optind

theorem exchange_append (hargv : st.argv = pre ++ sk ++ mid ++ rest)
    (hfirst : st.firstNonopt = pre.length) (hlast : st.lastNonopt = pre.length + sk.length)
    (hoptind : st.optind = pre.length + sk.length + mid.length) :
    st.exchange.argv = pre ++ mid ++ sk ++ rest := by
  have h1 : st.argv.take st.firstNonopt = pre := by
    rw [hargv, hfirst, List.append_assoc, List.append_assoc, List.take_left]
  have h2 : (st.argv.take st.optind).drop st.lastNonopt = mid := by
    rw [hargv, hoptind, hlast, ← List.length_append, ← List.length_append, List.take_left,
      List.drop_left]
  have h3 : (st.argv.take st.lastNonopt).drop st.firstNonopt = sk := by
    rw [hargv, hlast, hfirst, ← List.length_append, List.append_assoc, List.take_left, List.drop_left]
  have h4 : st.argv.drop st.optind = rest := by
    rw [hargv, hoptind, ← List.length_append, ← List.length_append, List.drop_left]
  rw [State.exchange, h1, h2, h3, h4]

/-- The skipped elements have been moved behind the options. -/
theorem Scanning.permute (h : Scanning st sk rest) (hnext : st.nextchar = []) :
    ∃ pre, Aligned st.permute pre sk rest ∧ pre.length + sk.length + rest.length = st.argv.length := by
  obtain ⟨pre, mid, cur, hargv, hne, hfirst, hlast, hoptind, hcur⟩ := h
  obtain rfl : cur = [] := by simpa [hnext] using hcur
  rw [List.append_nil] at hargv
  have hlen : (pre ++ mid).length + sk.length + rest.length = st.argv.length := by
    simp only [hargv, List.length_append]
    omega
  refine ⟨pre ++ mid, ?_, hlen⟩
  unfold State.permute
  by_cases hsk : sk = []
  · subst hsk
    rw [if_neg (by simp [hfirst, hlast])]
    by_cases hmid : mid = []
    · subst hmid
      rw [if_neg (by simp [hlast, hoptind])]
      exact ⟨by simpa using hargv, by simp [hne], by simpa using hfirst, by simpa using hoptind, hnext⟩
    · have hpos : 0 < mid.length := List.length_pos_iff.mpr hmid
      rw [if_pos (by simp at hlast hoptind; omega)]
      exact ⟨by simpa using hargv, by simp [hne], by simpa using hoptind, by simpa using hoptind, hnext⟩
  · have hpos : 0 < sk.length := List.length_pos_iff.mpr hsk
    by_cases hmid : mid = []
    · subst hmid
      have hsame : st.lastNonopt = st.optind := by simp [hlast, hoptind]
      rw [if_neg (by simp [hsame]), if_neg (by simp [hsame])]
      exact ⟨by simpa using hargv, by simp [hne], by simpa using hfirst, by simpa using hoptind, hnext⟩
    · have hpos' : 0 < mid.length := List.length_pos_iff.mpr hmid
      rw [if_pos ⟨by omega, by omega⟩]
      refine ⟨exchange_append hargv hfirst hlast hoptind, by simp [hne], ?_, ?_, hnext⟩
      · simp only [State.exchange, List.length_append]
        omega
      · simp only [State.exchange, List.length_append]
        omega

/-- Elements that are no options have been skipped. -/
theorem Aligned.skip (h : Aligned st pre sk rest) :
    Aligned st.skip pre (sk ++ rest.takeWhile isNonoption) (rest.dropWhile isNonoption) := by
  refine ⟨?_, h.ne_nil, h.first, ?_, h.nextchar⟩
  · rw [List.append_assoc, List.append_assoc, List.takeWhile_append_dropWhile, ← List.append_assoc]
    exact h.argv
  · simp only [State.skip, h.drop, List.length_append]
    rw [h.optind, Nat.add_assoc]

/-- Without `--` nothing happens. -/
theorem terminate_of_ne (h : (st.argv.drop st.optind).head? ≠ some ['-', '-']) :
    st.terminate = st := by
  rw [State.terminate, if_neg h]

/-- Where something has been passed behind the skipped elements, closing the
block moves them as usual. -/
theorem closeBlock_eq_permute (h : st.lastNonopt ≠ st.optind) : st.closeBlock = st.permute := by
  by_cases hfirst : st.firstNonopt = st.lastNonopt
  · simp [State.closeBlock, State.permute, hfirst, h]
  · simp [State.closeBlock, State.permute, hfirst, h]

/-- Behind `--` everything has been skipped. -/
theorem Aligned.terminate (h : Aligned st pre sk (['-', '-'] :: rest))
    (hlast : st.lastNonopt = st.optind) :
    (∃ pre, Aligned st.terminate pre (sk ++ rest) []) ∧
      st.terminate.lastNonopt = st.terminate.optind := by
  have hhead : (st.argv.drop st.optind).head? = some ['-', '-'] := by rw [h.drop, List.head?_cons]
  have hscan : Scanning { st with optind := st.optind + 1 } sk rest := by
    refine ⟨pre, [['-', '-']], [], ?_, h.ne_nil, h.first, ?_, ?_, by simp [h.nextchar]⟩
    · simpa using h.argv
    · simp [hlast, h.optind]
    · simp [h.optind]
  obtain ⟨pre', hpre, hlen⟩ := hscan.permute h.nextchar
  rw [State.terminate, if_pos hhead, closeBlock_eq_permute (by simp [hlast])]
  refine ⟨⟨pre', ?_, hpre.ne_nil, hpre.first, ?_, hpre.nextchar⟩, rfl⟩
  · simpa using hpre.argv
  · rw [List.length_append, ← Nat.add_assoc]
    exact hlen.symm

/-! ## The next option -/

theorem decode_append_nonoptions (opts : Options) {ns : List (List Char)}
    (h : ∀ a ∈ ns, isNonoption a = true) (rest : List (List Char)) :
    decode opts false (ns ++ rest) =
      ((decode opts false rest).1, ns ++ (decode opts false rest).2) := by
  induction ns with
  | nil => rfl
  | cons a ns ih =>
      rw [List.forall_mem_cons] at h
      have hdash : a ≠ ['-', '-'] := by
        rintro rfl
        exact absurd h.1 (by decide)
      rw [List.cons_append, decode, if_neg hdash, if_pos h.1, ih h.2]
      rfl

/-- Between two elements the scanner goes on to the next option, or to the
end. -/
theorem Scanning.advance (opts : Options) (h : Scanning st sk rest) (hnext : st.nextchar = []) :
    ∃ pre sk' rest', Aligned st.permute.skip.terminate pre sk' rest' ∧
      st.permute.skip.terminate.lastNonopt = st.permute.skip.terminate.optind ∧
      (decode opts false rest').1 = (decode opts false rest).1 ∧
      sk' ++ (decode opts false rest').2 = sk ++ (decode opts false rest).2 ∧
      weight rest' ≤ weight rest ∧
      ∀ a, rest'.head? = some a → isNonoption a = false ∧ a ≠ ['-', '-'] := by
  obtain ⟨pre, hpre, _⟩ := h.permute hnext
  have hskip := hpre.skip
  have hlast : st.permute.skip.lastNonopt = st.permute.skip.optind := rfl
  have hsplit := List.takeWhile_append_dropWhile (p := isNonoption) (l := rest)
  have hns : ∀ a ∈ rest.takeWhile isNonoption, isNonoption a = true :=
    fun a ha => List.mem_takeWhile_imp ha
  have hdecode := decode_append_nonoptions opts hns (rest.dropWhile isNonoption)
  rw [hsplit] at hdecode
  have hweight := weight_append (rest.takeWhile isNonoption) (rest.dropWhile isNonoption)
  rw [hsplit] at hweight
  by_cases hterm : (rest.dropWhile isNonoption).head? = some ['-', '-']
  · obtain ⟨as, has⟩ : ∃ as, rest.dropWhile isNonoption = ['-', '-'] :: as := by
      cases hdrop : rest.dropWhile isNonoption with
      | nil => simp [hdrop] at hterm
      | cons a as =>
          obtain rfl : a = ['-', '-'] := by simpa [hdrop] using hterm
          exact ⟨as, rfl⟩
    rw [has] at hskip hdecode
    obtain ⟨⟨pre', hpre'⟩, hend⟩ := hskip.terminate hlast
    rw [hdecode]
    refine ⟨pre', _, [], hpre', hend, by simp [decode], ?_, by simp, by simp⟩
    simp [decode]
  · have hsame : st.permute.skip.terminate = st.permute.skip :=
      terminate_of_ne (by rwa [hskip.drop])
    rw [hsame, hdecode]
    refine ⟨pre, _, _, hskip, hlast, rfl, by rw [List.append_assoc], by omega,
      fun a ha => ⟨?_, fun hdash => hterm (hdash ▸ ha)⟩⟩
    have hnot := List.head?_dropWhile_not isNonoption rest
    rw [ha] at hnot
    exact hnot

/-! ## Inside an element -/

theorem Scanning.drop (h : Scanning st sk rest) (hnext : st.nextchar = []) :
    st.argv.drop st.optind = rest := by
  obtain ⟨pre, mid, cur, hargv, _, _, _, hoptind, hcur⟩ := h
  obtain rfl : cur = [] := by simpa [hnext] using hcur
  rw [List.append_nil] at hargv
  rw [hargv, hoptind, ← List.length_append, ← List.length_append, List.drop_left]

/-- The element of a bundle has been left. -/
theorem Scanning.leave (h : Scanning st sk rest) (hnext : st.nextchar ≠ []) :
    Scanning { st with nextchar := [], optind := st.optind + 1 } sk rest := by
  obtain ⟨pre, mid, cur, hargv, hne, hfirst, hlast, hoptind, hcur⟩ := h
  rw [if_neg hnext] at hcur
  refine ⟨pre, mid ++ cur, [], by simpa using hargv, hne, hfirst, hlast, ?_, rfl⟩
  simp only [List.length_append, hoptind, hcur]
  omega

/-- The bundle goes on. -/
theorem Scanning.letters (h : Scanning st sk rest) (hnext : st.nextchar ≠ []) {cs : List Char}
    (hcs : cs ≠ []) : Scanning { st with nextchar := cs } sk rest := by
  obtain ⟨pre, mid, cur, hargv, hne, hfirst, hlast, hoptind, hcur⟩ := h
  rw [if_neg hnext] at hcur
  exact ⟨pre, mid, cur, hargv, hne, hfirst, hlast, hoptind, by simp [hcs, hcur]⟩

/-- One more element has been passed. -/
theorem Scanning.pass (h : Scanning st sk (a :: rest)) (hnext : st.nextchar = []) :
    Scanning { st with optind := st.optind + 1 } sk rest := by
  obtain ⟨pre, mid, cur, hargv, hne, hfirst, hlast, hoptind, hcur⟩ := h
  obtain rfl : cur = [] := by simpa [hnext] using hcur
  refine ⟨pre, mid ++ [a], [], by simpa using hargv, hne, hfirst, hlast, ?_, by simp [hnext]⟩
  simp only [List.length_append, hoptind, List.length_singleton]
  omega

/-- After a letter the bundle goes on, or its element has been left. -/
theorem Scanning.letter (h : Scanning st sk rest) {c : Char} {cs : List Char}
    (hnext : st.nextchar = c :: cs) :
    Scanning { st with nextchar := cs, optind := if cs = [] then st.optind + 1 else st.optind }
      sk rest := by
  have hne : st.nextchar ≠ [] := by simp [hnext]
  by_cases hcs : cs = []
  · subst hcs
    exact h.leave hne
  · simpa [hcs] using h.letters hne hcs

/-- The token of a letter, and the future behind it. -/
def Delivers (opts : Options) (st : State) (sk rest : List (List Char)) (x : Option Token × State) :
    Prop :=
  ∃ t sk' rest', x.1 = some t ∧ Scanning x.2 sk' rest' ∧
    (future opts st.nextchar rest).1 = t :: (future opts x.2.nextchar rest').1 ∧
    sk' ++ (future opts x.2.nextchar rest').2 = sk ++ (future opts st.nextchar rest).2 ∧
    size x.2.nextchar rest' < size st.nextchar rest

theorem future_nil (opts : Options) (rest : List (List Char)) :
    future opts [] rest = decode opts false rest := rfl

/-- **A letter of a bundle.** -/
theorem shortOption_delivers (opts : Options) (h : Scanning st sk rest) (hnext : st.nextchar ≠ []) :
    Delivers opts st sk rest (st.shortOption opts) := by
  obtain ⟨c, cs, hcs⟩ := List.exists_cons_of_ne_nil hnext
  have hletter := h.letter hcs
  unfold State.shortOption Delivers
  simp only [hcs]
  cases hc : shortArg opts.short c with
  | none =>
      exact ⟨_, sk, rest, rfl, hletter, by simp [future, shortTokens, hc],
        by simp [future, shortTokens, hc], by simp [size]⟩
  | some k =>
      cases k with
      | no =>
          exact ⟨_, sk, rest, rfl, hletter, by simp [future, shortTokens, hc],
            by simp [future, shortTokens, hc], by simp [size]⟩
      | optional =>
          by_cases hnil : cs = []
          · subst hnil
            exact ⟨_, sk, rest, rfl, hletter, by simp [future, shortTokens, hc],
              by simp [future, shortTokens, hc], by simp [size]⟩
          · simp only [hnil, if_false]
            exact ⟨_, sk, rest, rfl, h.leave hnext, by simp [future, shortTokens, hc, hnil],
              by simp [future, shortTokens, hc], by simp [size]⟩
      | required =>
          by_cases hnil : cs = []
          · subst hnil
            have hdrop := hletter.drop rfl
            simp only [if_true] at hletter hdrop ⊢
            -- the argument is the next element, when there is one
            cases rest with
            | nil =>
                simp only [hdrop, List.head?_nil]
                exact ⟨_, sk, [], rfl, hletter, by simp [future, shortTokens, hc],
                  by simp [future, shortTokens, hc], by simp [size]⟩
            | cons a as =>
                simp only [hdrop, List.head?_cons]
                exact ⟨_, sk, as, rfl, hletter.pass rfl, by simp [future, shortTokens, hc, decode],
                  by simp [future, shortTokens, hc, decode], by simp [size]; omega⟩
          · simp only [hnil, if_false]
            exact ⟨_, sk, rest, rfl, h.leave hnext, by simp [future, shortTokens, hc, hnil],
              by simp [future, shortTokens, hc, hnil], by simp [size]⟩

theorem longToken_none (opts : Options) (body : List Char) :
    (longToken opts none body).2 = false := by
  unfold longToken
  split
  · rfl
  · split <;> rfl

/-- **A long option.**  It takes the next element only when there is one. -/
theorem longOption_delivers (opts : Options) {body : List Char} (h : Aligned st pre sk (a :: rest))
    (hlast : st.lastNonopt = st.optind) (ha : a = '-' :: '-' :: body) (hdash : a ≠ ['-', '-']) :
    Delivers opts st sk (a :: rest) (st.longOption opts body) := by
  have hscan : Scanning st sk (a :: rest) := h.scanning hlast
  have hpass := hscan.pass h.nextchar
  have hdrop : st.argv.drop (st.optind + 1) = rest := hpass.drop h.nextchar
  have hdecode : decode opts false (a :: rest) =
      ((longToken opts rest.head? body).1 ::
        (decode opts (longToken opts rest.head? body).2 rest).1,
        (decode opts (longToken opts rest.head? body).2 rest).2) := by
    rw [decode, if_neg hdash, if_neg (by simp [ha, isNonoption]), ha]
    rfl
  unfold State.longOption Delivers
  rw [h.nextchar, future_nil, hdecode, hdrop]
  cases hused : (longToken opts rest.head? body).2 with
  | false =>
      refine ⟨_, sk, rest, rfl, ?_, rfl, rfl, by simp [size]⟩
      simpa [h.nextchar, hused] using hpass
  | true =>
      cases rest with
      | nil => simp [longToken_none] at hused
      | cons b bs =>
          refine ⟨_, sk, bs, rfl, ?_, rfl, rfl, by simp [size]; omega⟩
          rw [List.head?_cons] at hused
          simpa [h.nextchar, hused] using hpass.pass h.nextchar

theorem isNonoption_eq_false (h : isNonoption a = false) : ∃ c cs, a = '-' :: c :: cs := by
  unfold isNonoption at h
  split at h
  · exact ⟨_, _, rfl⟩
  · exact absurd h (by decide)

/-- An element with short options is scanned as a bundle. -/
theorem decode_cons_short (opts : Options) (rest : List (List Char)) (ha : isNonoption a = false)
    (hlong : ∀ body, a ≠ '-' :: '-' :: body) :
    decode opts false (a :: rest) = future opts a.tail rest ∧ a.tail ≠ [] := by
  obtain ⟨c, cs, rfl⟩ := isNonoption_eq_false ha
  have hc : c ≠ '-' := fun hc => hlong cs (by rw [hc])
  have helement : elementTokens opts rest.head? ('-' :: c :: cs) =
      shortTokens opts rest.head? (c :: cs) := by
    simp [elementTokens, hc]
  refine ⟨?_, by simp⟩
  rw [decode, if_neg (by simp [hc]), if_neg (by simp [isNonoption]), helement]
  rfl

/-- Skipping elements that are no options changes nothing that is to come. -/
theorem Delivers.of_skip {st' : State} {sk' rest' : List (List Char)} {x : Option Token × State}
    (h : Delivers opts st' sk' rest' x)
    (htokens : (future opts st'.nextchar rest').1 = (future opts st.nextchar rest).1)
    (hothers : sk' ++ (future opts st'.nextchar rest').2 = sk ++ (future opts st.nextchar rest).2)
    (hsize : size st'.nextchar rest' ≤ size st.nextchar rest) : Delivers opts st sk rest x := by
  obtain ⟨t, sk₂, rest₂, hx, hscan, hts, hos, hlt⟩ := h
  exact ⟨t, sk₂, rest₂, hx, hscan, htokens ▸ hts, hothers ▸ hos, hlt.trans_le hsize⟩

/-- At the end `optind` goes back to the arguments that are no options. -/
theorem Aligned.finish (h : Aligned st pre sk []) (hlast : st.lastNonopt = st.optind) :
    st.finish.argv.drop st.finish.optind = sk := by
  unfold State.finish
  by_cases hsk : sk = []
  · subst hsk
    rw [if_neg (by simp [hlast, h.first, h.optind])]
    exact h.drop
  · have hpos : 0 < sk.length := List.length_pos_iff.mpr hsk
    rw [if_pos (by rw [hlast, h.first, h.optind]; omega)]
    change st.argv.drop st.firstNonopt = sk
    rw [h.argv, h.first, List.append_nil, List.drop_left]

/-- A bundle begins at its first letter. -/
theorem Aligned.bundle (h : Aligned st pre sk (a :: rest)) (hlast : st.lastNonopt = st.optind)
    (ha : a.tail ≠ []) : Scanning { st with nextchar := a.tail } sk rest := by
  refine ⟨pre, [], [a], ?_, h.ne_nil, h.first, ?_, ?_, by simp [ha]⟩
  · simpa using h.argv
  · exact hlast.trans h.optind
  · exact h.optind

/-- **A new element.** -/
theorem element_delivers (opts : Options) (h : Aligned st pre sk (a :: rest))
    (hlast : st.lastNonopt = st.optind) (hopt : isNonoption a = false) (hdash : a ≠ ['-', '-']) :
    Delivers opts st sk (a :: rest) (st.element opts) := by
  unfold State.element
  rw [h.drop, List.head?_cons]
  split
  · next heq => simp at heq
  · next body heq => exact longOption_delivers opts h hlast (Option.some.inj heq) hdash
  · next b hlong heq =>
      obtain rfl := Option.some.inj heq
      obtain ⟨hdecode, htail⟩ := decode_cons_short opts rest hopt
        fun body hbody => hlong body (by rw [hbody])
      have hdel := shortOption_delivers opts (h.bundle hlast htail) htail
      have hsame : future opts st.nextchar (a :: rest) = future opts a.tail rest := by
        rw [h.nextchar, future_nil, hdecode]
      refine hdel.of_skip ?_ ?_ ?_
      · rw [hsame]
      · rw [hsame]
      · simp only [size, weight_cons, List.length_tail]
        omega

/-- **One call** delivers the next token; or there is none, and `optind` stands
before the arguments that are no options. -/
theorem getoptLong_spec (opts : Options) (h : Scanning st sk rest) :
    Delivers opts st sk rest (getoptLong opts st) ∨
      (getoptLong opts st).1 = none ∧ (future opts st.nextchar rest).1 = [] ∧
        (getoptLong opts st).2.argv.drop (getoptLong opts st).2.optind =
          sk ++ (future opts st.nextchar rest).2 := by
  have hlen : ¬ st.argv.length < 1 := by
    obtain ⟨pre, mid, cur, hargv, hne, _⟩ := h
    have := List.length_pos_iff.mpr hne
    simp only [hargv, List.length_append]
    omega
  unfold getoptLong
  rw [if_neg hlen]
  by_cases hnext : st.nextchar = []
  · rw [if_neg (by simp [hnext]), hnext, future_nil]
    obtain ⟨pre, sk', rest', hal, hlast, htokens, hothers, hweight, hhead⟩ := h.advance opts hnext
    cases rest' with
    | nil =>
        have hend : st.permute.skip.terminate.element opts =
            (none, st.permute.skip.terminate.finish) := by
          rw [State.element, hal.drop]
          rfl
        refine .inr ⟨by rw [hend], htokens.symm, ?_⟩
        rw [hend, ← hothers]
        simpa [decode] using hal.finish hlast
    | cons a as =>
        obtain ⟨hopt, hdash⟩ := hhead a rfl
        have hdel := element_delivers opts hal hlast hopt hdash
        refine .inl (hdel.of_skip ?_ ?_ ?_)
        · rwa [hal.nextchar, hnext]
        · rwa [hal.nextchar, hnext]
        · rw [hal.nextchar, hnext]
          simpa [size] using hweight
  · rw [if_pos hnext]
    exact .inl (shortOption_delivers opts h hnext)

end Elements

end Getopt
