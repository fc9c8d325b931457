import De1Soc.Getopt.Loop

/-!
# De1Soc.Getopt.Spelling

The same command line in other words: every short option by the long option of
its letter (`toLong`), or every long one by its letter (`toShort`).

Where the string of short options and the table of long ones declare the same,
both spellings give the same options, up to the first error.  `Twin opts d` says
that they declare the same but for one letter `d`, whose long option takes an
argument and whose short one does not.  `Alike` compares two readings of such
command lines, and `toLong_alike` and `toShort_alike` are the two results.
-/

namespace Getopt

/-! ## The two spellings -/

/-- The name of an entry. -/
def LongOption.text (o : LongOption) : List Char := o.name.getD []

/-- A long option without an attached argument. -/
def dashed (name : List Char) : List Char := '-' :: '-' :: name

/-- The long option of a letter. -/
def longOf (table : List LongOption) (c : Char) : Option LongOption :=
  (entries table).find? (·.ret = c)

/-- A bundle in long options, each with its argument if the long form takes one;
the `Bool` tells whether the next element is that argument.  What is no option
stays, with all that follows in the bundle; a `-` cannot begin a bundle, so the
letter before it stays too. -/
def longBundle (opts : Options) : List Char → List (List Char) × Bool
  | [] => ([], false)
  | c :: cs =>
      match shortArg opts.short c, longOf opts.long c with
      | some _, some o =>
          if o.hasArg = .no then
            if cs = [] then ([dashed o.text], false)
            else if cs.head? = some '-' then (['-' :: c :: cs], false)
            else (dashed o.text :: (longBundle opts cs).1, (longBundle opts cs).2)
          else if cs = [] then ([dashed o.text], o.hasArg = .required)
          else ([dashed (o.text ++ '=' :: cs)], false)
      | _, _ => (['-' :: c :: cs], false)

/-- An element with its short options replaced. -/
def longSpelling (opts : Options) (next : Option (List Char)) :
    List Char → List (List Char) × Bool
  | '-' :: '-' :: body => ([dashed body], (longToken opts next body).2)
  | '-' :: cs => longBundle opts cs
  | a => ([a], false)

/-- A long option, given behind its dashes, by its letter.  An empty argument
becomes an element of its own.  What is no option stays. -/
def shortForm (opts : Options) (body : List Char) : List (List Char) × Bool :=
  match lookup opts.long (nameOf body) with
  | none => ([dashed body], false)
  | some o =>
      match valueOf body, o.hasArg with
      | some _, .no => ([dashed body], false)
      | some [], _ => ([['-', o.ret], []], false)
      | some v, _ => (['-' :: o.ret :: v], false)
      | none, k => ([['-', o.ret]], k = .required)

/-- An element with its long option replaced. -/
def shortSpelling (opts : Options) (next : Option (List Char)) :
    List Char → List (List Char) × Bool
  | '-' :: '-' :: body => shortForm opts body
  | '-' :: cs => (['-' :: cs], (shortTokens opts next cs).2)
  | a => ([a], false)

/-- The elements that are options are replaced, up to `--`. -/
def respell (spelling : Option (List Char) → List Char → List (List Char) × Bool) :
    Bool → List (List Char) → List (List Char)
  | _, [] => []
  | true, a :: as => a :: respell spelling false as
  | false, a :: as =>
      if a = ['-', '-'] then a :: as
      else if isNonoption a then a :: respell spelling false as
      else (spelling as.head? a).1 ++ respell spelling (spelling as.head? a).2 as

/-- **Long for short.** -/
def toLong (opts : Options) (args : List (List Char)) : List (List Char) :=
  respell (longSpelling opts) false args

/-- **Short for long.** -/
def toShort (opts : Options) (args : List (List Char)) : List (List Char) :=
  respell (shortSpelling opts) false args

/-! ## Readings that are alike -/

/-- The letter of the option that a token is for. -/
def Token.stands (opts : Options) : Token → Option Char
  | opt _ val _ => some val
  | bad none => none
  | bad (some name) => (lookup opts.long name).map (·.ret)

/-- There is an option for `c`, before the first error or in it. -/
def Mentions (opts : Options) (c : Char) (ts : List Token) : Prop :=
  Comes (·.isOpt = true) (·.stands opts = some c) ts

/-- Two readings have the same options up to the first error, and without one
the same other arguments.  At an option for `d` the comparison ends, and the
rest of the second reading is as `stop` says. -/
inductive Alike (opts : Options) (d : Char) (stop : Token → List Token → Prop) :
    List Token × List (List Char) → List Token × List (List Char) → Prop
  | done (ns : List (List Char)) : Alike opts d stop ([], ns) ([], ns)
  | opt {ts ts' : List Token} {ns ns' : List (List Char)} (long long' : Option (List Char))
      {val : Char} (arg : Option (List Char)) (hval : val ≠ d)
      (h : Alike opts d stop (ts, ns) (ts', ns')) :
      Alike opts d stop (.opt long val arg :: ts, ns) (.opt long' val arg :: ts', ns')
  | bad (ts ts' : List Token) (ns ns' : List (List Char)) {long : Option (List Char)}
      (long' : Option (List Char)) (hlong : (Token.bad long).stands opts ≠ some d) :
      Alike opts d stop (.bad long :: ts, ns) (.bad long' :: ts', ns')
  | differ {t : Token} (ts : List Token) {ts' : List Token} (ns ns' : List (List Char))
      (ht : t.stands opts = some d) (h : stop t ts') : Alike opts d stop (t :: ts, ns) (ts', ns')

section Readings

variable {opts : Options} {d : Char} {stop : Token → List Token → Prop}

/-- One more argument that is no option. -/
theorem Alike.cons {x y : List Token × List (List Char)} (h : Alike opts d stop x y)
    (a : List Char) : Alike opts d stop (x.1, a :: x.2) (y.1, a :: y.2) := by
  induction h with
  | done ns => exact .done (a :: ns)
  | opt long long' arg hval _ ih => exact .opt long long' arg hval ih
  | bad ts ts' ns ns' long' hlong => exact .bad ts ts' (a :: ns) (a :: ns') long' hlong
  | differ ts ns ns' ht h => exact .differ ts (a :: ns) (a :: ns') ht h

/-- **Element by element.**  A spelling that keeps the reading of each option
keeps the reading of the command line. -/
theorem respell_alike {spelling : Option (List Char) → List Char → List (List Char) × Bool}
    (helement : ∀ a as, isNonoption a = false → a ≠ ['-', '-'] →
      (∀ taken, Alike opts d stop (decode opts taken as)
        (decode opts taken (respell spelling taken as))) →
      Alike opts d stop (decode opts false (a :: as)) (decode opts false
        ((spelling as.head? a).1 ++ respell spelling (spelling as.head? a).2 as)))
    (taken : Bool) (args : List (List Char)) :
    Alike opts d stop (decode opts taken args) (decode opts taken (respell spelling taken args)) := by
  induction args generalizing taken with
  | nil => exact .done []
  | cons a as ih =>
      cases taken with
      | true => exact ih false
      | false =>
          rw [respell]
          by_cases hdash : a = ['-', '-']
          · subst hdash
            exact .done as
          · by_cases hnon : isNonoption a = true
            · simp only [if_neg hdash, if_pos hnon, decode]
              exact (ih false).cons a
            · rw [if_neg hdash, if_neg hnon]
              exact helement a as (by simpa using hnon) hdash ih

end Readings

/-! ## Two descriptions of the same options -/

/-- The string and the table declare the same options but for `d`, which takes
an argument in the table and none in the string.  Every name reads as itself. -/
structure Twin (opts : Options) (d : Char) : Prop where
  name : ∀ o ∈ opts.long, o.text ≠ [] ∧ '=' ∉ o.text ∧ lookup opts.long o.text = some o
  long : ∀ o ∈ opts.long, o.ret ≠ d → shortArg opts.short o.ret = some o.hasArg
  short : opts.short.all
    (fun c => (shortArg opts.short c).isNone || (longOf opts.long c).isSome) = true
  hasArg : ∀ o ∈ opts.long, o.hasArg ≠ .optional ∧ (o.ret = d → o.hasArg = .required)
  dash : '-' ∉ opts.short
  shortArg_eq : shortArg opts.short d = some .no

section Twins

variable {opts : Options} {d : Char}

theorem mem_of_longOf {table : List LongOption} {c : Char} {o : LongOption}
    (h : longOf table c = some o) : o ∈ table ∧ o.ret = c :=
  ⟨List.takeWhile_subset _ (List.mem_of_find?_eq_some h), by simpa using List.find?_some h⟩

/-- A short option has a long form. -/
theorem Twin.exists_longOf (h : Twin opts d) {c : Char} {k : HasArg}
    (hc : shortArg opts.short c = some k) :
    ∃ o ∈ opts.long, longOf opts.long c = some o ∧ o.ret = c := by
  have hlong := List.all_eq_true.mp h.short c (mem_of_shortArg hc)
  obtain ⟨o, ho⟩ := Option.isSome_iff_exists.mp (by simpa [hc] using hlong)
  exact ⟨o, (mem_of_longOf ho).1, ho, (mem_of_longOf ho).2⟩

theorem Twin.shortArg_dash (h : Twin opts d) : shortArg opts.short '-' = none := by
  cases hk : shortArg opts.short '-' with
  | none => rfl
  | some k => exact absurd (mem_of_shortArg hk) h.dash

theorem Twin.ne_dash (h : Twin opts d) {c : Char} {k : HasArg}
    (hc : shortArg opts.short c = some k) : c ≠ '-' := by
  rintro rfl
  rw [h.shortArg_dash] at hc
  contradiction

/-! ## Reading what has been respelled -/

theorem decode_dashed (opts : Options) {body : List Char} (hbody : body ≠ [])
    (as : List (List Char)) :
    decode opts false (dashed body :: as) =
      ((longToken opts as.head? body).1 :: (decode opts (longToken opts as.head? body).2 as).1,
        (decode opts (longToken opts as.head? body).2 as).2) := by
  rw [decode, if_neg (by simp [dashed, hbody]), if_neg (by simp [dashed, isNonoption])]
  rfl

theorem decode_short (opts : Options) {c : Char} (hc : c ≠ '-') (cs : List Char)
    (as : List (List Char)) :
    decode opts false (('-' :: c :: cs) :: as) = future opts (c :: cs) as :=
  (decode_cons_short opts as (a := '-' :: c :: cs) (by simp [isNonoption]) (by simp [hc])).1

theorem nameOf_text {name : List Char} (h : '=' ∉ name) (v : List Char) :
    nameOf name = name ∧ valueOf name = none ∧ nameOf (name ++ '=' :: v) = name ∧
      valueOf (name ++ '=' :: v) = some v := by
  have hne : ∀ c ∈ name, decide (c ≠ '=') = true := by
    intro c hc
    simpa using fun heq : c = '=' => h (heq ▸ hc)
  refine ⟨?_, ?_, ?_, ?_⟩
  · rw [nameOf, List.takeWhile_eq_self_iff]
    exact hne
  · rw [valueOf, List.dropWhile_eq_nil_iff.mpr hne]
    rfl
  · rw [nameOf, List.takeWhile_append_of_pos hne]
    simp
  · rw [valueOf, List.dropWhile_append_of_pos hne]
    simp

/-- An option whose argument is the next element. -/
def withNext (opts : Options) (long : Option (List Char)) (val : Char) :
    List (List Char) → List Token × List (List Char)
  | [] => ([.bad long], [])
  | a :: as => (.opt long val (some a) :: (decode opts false as).1, (decode opts false as).2)

section Letters

variable {c : Char} (cs : List Char) (as : List (List Char))

theorem future_of_none (hc : shortArg opts.short c = none) :
    future opts (c :: cs) as = (.bad none :: (future opts cs as).1, (future opts cs as).2) := by
  simp [future, shortTokens, hc]

theorem future_of_no (hc : shortArg opts.short c = some .no) :
    future opts (c :: cs) as = (.opt none c none :: (future opts cs as).1, (future opts cs as).2) := by
  simp [future, shortTokens, hc]

theorem future_of_attached (hc : shortArg opts.short c = some .required) (hcs : cs ≠ []) :
    future opts (c :: cs) as =
      (.opt none c (some cs) :: (decode opts false as).1, (decode opts false as).2) := by
  simp [future, shortTokens, hc, hcs]

theorem future_of_separate (hc : shortArg opts.short c = some .required) :
    future opts [c] as = withNext opts none c as := by
  cases as with
  | nil => simp [future, shortTokens, hc, withNext, decode]
  | cons a as => simp [future, shortTokens, hc, withNext, decode]

end Letters

section Names

variable {o : LongOption} {body : List Char} (as : List (List Char))

theorem decode_of_no (hbody : body ≠ []) (hlookup : lookup opts.long (nameOf body) = some o)
    (hvalue : valueOf body = none) (harg : o.hasArg = .no) :
    decode opts false (dashed body :: as) =
      (.opt (some (nameOf body)) o.ret none :: (decode opts false as).1, (decode opts false as).2) := by
  rw [decode_dashed opts hbody]
  simp only [longToken, hlookup, hvalue, harg]

theorem decode_of_attached {v : List Char} (hbody : body ≠ [])
    (hlookup : lookup opts.long (nameOf body) = some o) (hvalue : valueOf body = some v)
    (harg : o.hasArg = .required) :
    decode opts false (dashed body :: as) =
      (.opt (some (nameOf body)) o.ret (some v) :: (decode opts false as).1,
        (decode opts false as).2) := by
  rw [decode_dashed opts hbody]
  simp only [longToken, hlookup, hvalue, harg]

theorem decode_of_separate (hbody : body ≠ []) (hlookup : lookup opts.long (nameOf body) = some o)
    (hvalue : valueOf body = none) (harg : o.hasArg = .required) :
    decode opts false (dashed body :: as) = withNext opts (some (nameOf body)) o.ret as := by
  rw [decode_dashed opts hbody]
  cases as with
  | nil => simp [longToken, hlookup, hvalue, harg, withNext, decode]
  | cons a as => simp [longToken, hlookup, hvalue, harg, withNext, decode]

theorem decode_of_lookup_none (hbody : body ≠ []) (hlookup : lookup opts.long (nameOf body) = none) :
    decode opts false (dashed body :: as) =
      (.bad (some (nameOf body)) :: (decode opts false as).1, (decode opts false as).2) := by
  rw [decode_dashed opts hbody]
  simp only [longToken, hlookup]

theorem decode_of_unwanted {v : List Char} (hbody : body ≠ [])
    (hlookup : lookup opts.long (nameOf body) = some o) (hvalue : valueOf body = some v)
    (harg : o.hasArg = .no) :
    decode opts false (dashed body :: as) =
      (.bad (some (nameOf body)) :: (decode opts false as).1, (decode opts false as).2) := by
  rw [decode_dashed opts hbody]
  simp only [longToken, hlookup, hvalue, harg]

end Names

/-- The next element is the argument in both spellings. -/
theorem Alike.withNext {stop : Token → List Token → Prop}
    {spelling : Option (List Char) → List Char → List (List Char) × Bool} {as : List (List Char)}
    (ih : ∀ taken, Alike opts d stop (decode opts taken as)
      (decode opts taken (respell spelling taken as)))
    {long : Option (List Char)} (long' : Option (List Char)) {val : Char} (hval : val ≠ d)
    (hlong : (Token.bad long).stands opts ≠ some d) :
    Alike opts d stop (withNext opts long val as)
      (Getopt.withNext opts long' val (respell spelling true as)) := by
  cases as with
  | nil => exact .bad [] [] [] [] long' hlong
  | cons a as => exact .opt long long' (some a) hval (ih true)

/-! ## Long for short -/

section Long

variable {o : LongOption}

theorem Twin.decode_text_no (h : Twin opts d) (ho : o ∈ opts.long) (harg : o.hasArg = .no)
    (as : List (List Char)) :
    decode opts false (dashed o.text :: as) =
      (.opt (some o.text) o.ret none :: (decode opts false as).1, (decode opts false as).2) := by
  obtain ⟨hne, heq, hlookup⟩ := h.name o ho
  obtain ⟨hname, hvalue, _⟩ := nameOf_text heq []
  have hdecode := decode_of_no as hne (by rwa [hname]) hvalue harg
  rwa [hname] at hdecode

theorem Twin.decode_text_separate (h : Twin opts d) (ho : o ∈ opts.long)
    (harg : o.hasArg = .required) (as : List (List Char)) :
    decode opts false (dashed o.text :: as) = withNext opts (some o.text) o.ret as := by
  obtain ⟨hne, heq, hlookup⟩ := h.name o ho
  obtain ⟨hname, hvalue, _⟩ := nameOf_text heq []
  have hdecode := decode_of_separate as hne (by rwa [hname]) hvalue harg
  rwa [hname] at hdecode

theorem Twin.decode_text_attached (h : Twin opts d) (ho : o ∈ opts.long)
    (harg : o.hasArg = .required) (v : List Char) (as : List (List Char)) :
    decode opts false (dashed (o.text ++ '=' :: v) :: as) =
      (.opt (some o.text) o.ret (some v) :: (decode opts false as).1, (decode opts false as).2) := by
  obtain ⟨_, heq, hlookup⟩ := h.name o ho
  obtain ⟨_, _, hname, hvalue⟩ := nameOf_text heq v
  have hdecode := decode_of_attached as (by simp) (by rwa [hname]) hvalue harg
  rwa [hname] at hdecode

/-- **A bundle** reads the same in long options. -/
theorem Twin.longBundle_alike (h : Twin opts d) {as : List (List Char)}
    (ih : ∀ taken, Alike opts d (fun _ _ => True) (decode opts taken as)
      (decode opts taken (respell (longSpelling opts) taken as)))
    (cs : List Char) (hne : cs ≠ []) (hdash : cs.head? ≠ some '-') :
    Alike opts d (fun _ _ => True) (future opts cs as) (decode opts false
      ((longBundle opts cs).1 ++ respell (longSpelling opts) (longBundle opts cs).2 as)) := by
  induction cs with
  | nil => contradiction
  | cons c cs ihcs =>
      have hc : c ≠ '-' := by simpa using hdash
      rw [longBundle]
      cases hshort : shortArg opts.short c with
      | none =>
          simp only [List.singleton_append]
          rw [future_of_none cs as hshort, decode_short opts hc, future_of_none cs _ hshort]
          exact .bad _ _ _ _ none (by simp [Token.stands])
      | some k =>
          obtain ⟨o, ho, hlong, rfl⟩ := h.exists_longOf hshort
          simp only [hlong]
          by_cases hd : o.ret = d
          · rw [hd, future_of_no cs as h.shortArg_eq]
            exact .differ _ _ _ rfl trivial
          · obtain rfl : o.hasArg = k := Option.some.inj ((h.long o ho hd).symm.trans hshort)
            cases harg : o.hasArg with
            | optional => exact absurd harg (h.hasArg o ho).1
            | no =>
                rw [harg] at hshort
                rw [future_of_no cs as hshort, if_pos rfl]
                by_cases hcs : cs = []
                · subst hcs
                  rw [if_pos rfl, List.singleton_append, h.decode_text_no ho harg]
                  exact .opt none _ none hd (ih false)
                · rw [if_neg hcs]
                  by_cases hhead : cs.head? = some '-'
                  · obtain ⟨cs', rfl⟩ : ∃ cs', cs = '-' :: cs' := by
                      obtain ⟨c', cs', rfl⟩ := List.exists_cons_of_ne_nil hcs
                      exact ⟨cs', by rw [Option.some.inj hhead]⟩
                    rw [if_pos hhead, List.singleton_append, decode_short opts hc,
                      future_of_no _ _ hshort, future_of_none cs' _ h.shortArg_dash,
                      future_of_none cs' _ h.shortArg_dash]
                    exact .opt none none none hd (.bad _ _ _ _ none (by simp [Token.stands]))
                  · rw [if_neg hhead, List.cons_append, h.decode_text_no ho harg]
                    exact .opt none _ none hd (ihcs hcs hhead)
            | required =>
                rw [harg] at hshort
                rw [if_neg (by simp)]
                by_cases hcs : cs = []
                · subst hcs
                  rw [if_pos rfl, List.singleton_append, h.decode_text_separate ho harg,
                    future_of_separate as hshort]
                  exact Alike.withNext ih _ hd (by simp [Token.stands])
                · rw [if_neg hcs, List.singleton_append, h.decode_text_attached ho harg,
                    future_of_attached cs as hshort hcs]
                  exact .opt none _ (some cs) hd (ih false)

/-- A long option stands for its letter even where its argument is wrong. -/
theorem longToken_stands (next : Option (List Char)) {body : List Char}
    (hlookup : lookup opts.long (nameOf body) = some o) :
    (longToken opts next body).1.stands opts = some o.ret := by
  simp only [longToken, hlookup]
  split
  · simp [Token.stands, hlookup]
  · rfl
  · split
    · simp [Token.stands, hlookup]
    · rfl
  · rfl

/-- **A long option** stays as it is. -/
theorem Twin.dashed_alike (h : Twin opts d) {body : List Char} (hbody : body ≠ [])
    {as : List (List Char)}
    (ih : ∀ taken, Alike opts d (fun _ _ => True) (decode opts taken as)
      (decode opts taken (respell (longSpelling opts) taken as))) :
    Alike opts d (fun _ _ => True) (decode opts false (dashed body :: as)) (decode opts false
      (dashed body :: respell (longSpelling opts) (longToken opts as.head? body).2 as)) := by
  cases hlookup : lookup opts.long (nameOf body) with
  | none =>
      rw [decode_of_lookup_none _ hbody hlookup, decode_of_lookup_none _ hbody hlookup]
      exact .bad _ _ _ _ _ (by simp [Token.stands, hlookup])
  | some o =>
      have ho := mem_of_lookup hlookup
      by_cases hd : o.ret = d
      · rw [decode_dashed opts hbody as]
        exact .differ _ _ _ (hd ▸ longToken_stands as.head? hlookup) trivial
      · have hstands : (Token.bad (some (nameOf body))).stands opts ≠ some d := by
          simpa [Token.stands, hlookup] using hd
        cases harg : o.hasArg with
        | optional => exact absurd harg (h.hasArg o ho).1
        | no =>
            cases hvalue : valueOf body with
            | none =>
                rw [decode_of_no as hbody hlookup hvalue harg, decode_of_no _ hbody hlookup hvalue harg]
                simp only [longToken, hlookup, hvalue, harg]
                exact .opt _ _ none hd (ih false)
            | some v =>
                rw [decode_of_unwanted as hbody hlookup hvalue harg,
                  decode_of_unwanted _ hbody hlookup hvalue harg]
                exact .bad _ _ _ _ _ hstands
        | required =>
            cases hvalue : valueOf body with
            | none =>
                rw [decode_of_separate as hbody hlookup hvalue harg,
                  decode_of_separate _ hbody hlookup hvalue harg]
                have hnext : respell (longSpelling opts) (longToken opts as.head? body).2 as =
                    respell (longSpelling opts) true as := by
                  cases as with
                  | nil => rfl
                  | cons a as => simp only [longToken, hlookup, hvalue, harg, List.head?_cons]
                rw [hnext]
                exact Alike.withNext ih _ hd hstands
            | some v =>
                rw [decode_of_attached as hbody hlookup hvalue harg,
                  decode_of_attached _ hbody hlookup hvalue harg]
                simp only [longToken, hlookup, hvalue, harg]
                exact .opt _ _ (some v) hd (ih false)

/-- **An element** reads the same with its short options replaced. -/
theorem Twin.longSpelling_alike (h : Twin opts d) (a : List Char) (as : List (List Char))
    (hopt : isNonoption a = false) (hdash : a ≠ ['-', '-'])
    (ih : ∀ taken, Alike opts d (fun _ _ => True) (decode opts taken as)
      (decode opts taken (respell (longSpelling opts) taken as))) :
    Alike opts d (fun _ _ => True) (decode opts false (a :: as)) (decode opts false
      ((longSpelling opts as.head? a).1 ++
        respell (longSpelling opts) (longSpelling opts as.head? a).2 as)) := by
  obtain ⟨c, cs, rfl⟩ := isNonoption_eq_false hopt
  by_cases hc : c = '-'
  · subst hc
    exact h.dashed_alike (by simpa using hdash) ih
  · have hspelling : longSpelling opts as.head? ('-' :: c :: cs) = longBundle opts (c :: cs) := by
      simp [longSpelling, hc]
    rw [hspelling, decode_short opts hc]
    exact h.longBundle_alike ih (c :: cs) (by simp) (by simpa using hc)

end Long

/-- **Long for short**: the readings are alike, up to an option for `d`. -/
theorem Twin.toLong_alike (h : Twin opts d) (args : List (List Char)) :
    Alike opts d (fun _ _ => True) (decode opts false args) (decode opts false (toLong opts args)) :=
  respell_alike h.longSpelling_alike false args

/-! ## Short for long -/

/-- A short `d` without an argument begins one of the readings. -/
def Lacks (d : Char) (t : Token) (ts' : List Token) : Prop :=
  t = .opt none d none ∨ ∃ us, ts' = .opt none d none :: us

section Short

/-- **A bundle** stays as it is. -/
theorem Twin.future_alike (h : Twin opts d) {as : List (List Char)}
    (ih : ∀ taken, Alike opts d (Lacks d) (decode opts taken as)
      (decode opts taken (respell (shortSpelling opts) taken as)))
    (cs : List Char) :
    Alike opts d (Lacks d) (future opts cs as) (future opts cs
      (respell (shortSpelling opts) (shortTokens opts as.head? cs).2 as)) := by
  induction cs with
  | nil => exact ih false
  | cons c cs ihcs =>
      cases hshort : shortArg opts.short c with
      | none =>
          rw [future_of_none cs as hshort, future_of_none cs _ hshort]
          exact .bad _ _ _ _ none (by simp [Token.stands])
      | some k =>
          obtain ⟨o, ho, hlong, rfl⟩ := h.exists_longOf hshort
          by_cases hd : o.ret = d
          · rw [hd, future_of_no cs as h.shortArg_eq]
            exact .differ _ _ _ rfl (.inl rfl)
          · obtain rfl : o.hasArg = k := Option.some.inj ((h.long o ho hd).symm.trans hshort)
            cases harg : o.hasArg with
            | optional => exact absurd harg (h.hasArg o ho).1
            | no =>
                rw [harg] at hshort
                rw [future_of_no cs as hshort, future_of_no cs _ hshort]
                simp only [shortTokens, hshort]
                exact .opt none none none hd ihcs
            | required =>
                rw [harg] at hshort
                by_cases hcs : cs = []
                · subst hcs
                  rw [future_of_separate as hshort, future_of_separate _ hshort]
                  have hnext : respell (shortSpelling opts) (shortTokens opts as.head? [o.ret]).2 as =
                      respell (shortSpelling opts) true as := by
                    cases as with
                    | nil => rfl
                    | cons a as => simp [shortTokens, hshort]
                  rw [hnext]
                  exact Alike.withNext ih none hd (by simp [Token.stands])
                · rw [future_of_attached cs as hshort hcs, future_of_attached cs _ hshort hcs]
                  simp only [shortTokens, hshort, hcs, if_false]
                  exact .opt none none (some cs) hd (ih false)

/-- A short `d` has no argument, whatever follows it. -/
theorem Twin.decode_lacks (h : Twin opts d) (cs : List Char) (as : List (List Char)) :
    ∃ us, (decode opts false (('-' :: d :: cs) :: as)).1 = .opt none d none :: us := by
  rw [decode_short opts (h.ne_dash h.shortArg_eq), future_of_no cs as h.shortArg_eq]
  exact ⟨_, rfl⟩

/-- **A long option** reads the same by its letter. -/
theorem Twin.shortForm_alike (h : Twin opts d) {body : List Char} (hbody : body ≠ [])
    {as : List (List Char)}
    (ih : ∀ taken, Alike opts d (Lacks d) (decode opts taken as)
      (decode opts taken (respell (shortSpelling opts) taken as))) :
    Alike opts d (Lacks d) (decode opts false (dashed body :: as)) (decode opts false
      ((shortForm opts body).1 ++ respell (shortSpelling opts) (shortForm opts body).2 as)) := by
  cases hlookup : lookup opts.long (nameOf body) with
  | none =>
      simp only [shortForm, hlookup, List.singleton_append]
      rw [decode_of_lookup_none _ hbody hlookup, decode_of_lookup_none _ hbody hlookup]
      exact .bad _ _ _ _ _ (by simp [Token.stands, hlookup])
  | some o =>
      have ho := mem_of_lookup hlookup
      by_cases hd : o.ret = d
      · have harg := (h.hasArg o ho).2 hd
        rw [decode_dashed opts hbody as]
        refine .differ _ _ _ (hd ▸ longToken_stands as.head? hlookup) (.inr ?_)
        simp only [shortForm, hlookup, harg, hd]
        cases hvalue : valueOf body with
        | none => exact h.decode_lacks [] _
        | some v =>
            cases v with
            | nil => exact h.decode_lacks [] _
            | cons c cs => exact h.decode_lacks (c :: cs) _
      · have hstands : (Token.bad (some (nameOf body))).stands opts ≠ some d := by
          simpa [Token.stands, hlookup] using hd
        have hshort := h.long o ho hd
        have hdash := h.ne_dash hshort
        cases harg : o.hasArg with
        | optional => exact absurd harg (h.hasArg o ho).1
        | no =>
            rw [harg] at hshort
            cases hvalue : valueOf body with
            | none =>
                simp only [shortForm, hlookup, hvalue, harg, List.singleton_append]
                rw [decode_of_no as hbody hlookup hvalue harg, decode_short opts hdash,
                  future_of_no [] _ hshort]
                exact .opt _ _ none hd (ih false)
            | some v =>
                simp only [shortForm, hlookup, hvalue, harg, List.singleton_append]
                rw [decode_of_unwanted as hbody hlookup hvalue harg,
                  decode_of_unwanted _ hbody hlookup hvalue harg]
                exact .bad _ _ _ _ _ hstands
        | required =>
            rw [harg] at hshort
            cases hvalue : valueOf body with
            | none =>
                simp only [shortForm, hlookup, hvalue, harg, List.singleton_append]
                rw [decode_of_separate as hbody hlookup hvalue harg, decode_short opts hdash,
                  future_of_separate _ hshort]
                exact Alike.withNext ih none hd hstands
            | some v =>
                rw [decode_of_attached as hbody hlookup hvalue harg]
                cases v with
                | nil =>
                    simp only [shortForm, hlookup, hvalue, harg, List.cons_append, List.nil_append]
                    rw [decode_short opts hdash, future_of_separate _ hshort]
                    exact .opt _ _ (some []) hd (ih false)
                | cons c cs =>
                    simp only [shortForm, hlookup, hvalue, harg, List.singleton_append]
                    rw [decode_short opts hdash, future_of_attached _ _ hshort (by simp)]
                    exact .opt _ _ (some (c :: cs)) hd (ih false)

/-- **An element** reads the same with its long option replaced. -/
theorem Twin.shortSpelling_alike (h : Twin opts d) (a : List Char) (as : List (List Char))
    (hopt : isNonoption a = false) (hdash : a ≠ ['-', '-'])
    (ih : ∀ taken, Alike opts d (Lacks d) (decode opts taken as)
      (decode opts taken (respell (shortSpelling opts) taken as))) :
    Alike opts d (Lacks d) (decode opts false (a :: as)) (decode opts false
      ((shortSpelling opts as.head? a).1 ++
        respell (shortSpelling opts) (shortSpelling opts as.head? a).2 as)) := by
  obtain ⟨c, cs, rfl⟩ := isNonoption_eq_false hopt
  by_cases hc : c = '-'
  · subst hc
    exact h.shortForm_alike (by simpa using hdash) ih
  · have hspelling : shortSpelling opts as.head? ('-' :: c :: cs) =
        (['-' :: c :: cs], (shortTokens opts as.head? (c :: cs)).2) := by
      simp [shortSpelling, hc]
    rw [hspelling, decode_short opts hc, List.singleton_append, decode_short opts hc]
    exact h.future_alike ih (c :: cs)

end Short

/-- **Short for long**: the readings are alike, up to an option for `d`, which
loses its argument. -/
theorem Twin.toShort_alike (h : Twin opts d) (args : List (List Char)) :
    Alike opts d (Lacks d) (decode opts false args) (decode opts false (toShort opts args)) :=
  respell_alike h.shortSpelling_alike false args

end Twins

end Getopt
