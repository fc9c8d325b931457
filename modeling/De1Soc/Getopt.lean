import Mathlib.Data.List.TakeWhile

/-!
# De1Soc.Getopt

How a command line reads under the rules of GNU `getopt_long`.

`Options` are the two descriptions of the options that a program declares, the
short string and the long table.  `decode` reads the arguments from left to
right: bundles of letters (`shortTokens`), long options by their name or by an
unambiguous prefix of it (`longToken`), arguments that are attached to an option
or follow it, and elements that are no options, which may stand anywhere and
are set apart; `--` ends the options.  An element that cannot be read as an
option gives a `bad` token, and reading goes on behind it.

The string is one that does not begin with `+`, `-` or `:` and has no `W;`, and
`POSIXLY_CORRECT` is not set.
-/

namespace Getopt

/-- The `has_arg` of an option. -/
inductive HasArg
  | no
  | required
  | optional
deriving DecidableEq, Repr

/-- `struct option`: a null `name` ends a table, and `flag` tells whether the
flag pointer is set. -/
structure LongOption where
  name : Option (List Char)
  hasArg : HasArg
  flag : Bool := false
  val : Char
deriving DecidableEq, Repr

/-- What a program declares: the string of short options and the table of long
ones. -/
structure Options where
  short : List Char
  long : List LongOption
deriving DecidableEq, Repr

/-- One result of the decoder: an option with its argument, or an error; `long`
is the name that was searched in the table. -/
inductive Token
  | opt (long : Option (List Char)) (val : Char) (arg : Option (List Char))
  | bad (long : Option (List Char))
deriving DecidableEq, Repr

namespace Token

/-- The value that is returned. -/
def ret : Token → Char
  | opt _ val _ => val
  | bad _ => '?'

/-- `optarg` after the call. -/
def optarg : Token → Option (List Char)
  | opt _ _ arg => arg
  | bad _ => none

/-- The token is an option. -/
def isOpt : Token → Bool
  | opt _ _ _ => true
  | bad _ => false

/-- The name that was searched. -/
def searched : Token → Option (List Char)
  | opt long _ _ | bad long => long

end Token

/-! ## Options -/

/-- `strchr` in the short string: whether `c` is an option, and whether it takes
an argument. -/
def shortArg (optstring : List Char) (c : Char) : Option HasArg :=
  if c = ':' ∨ c = ';' then none
  else
    match optstring.dropWhile (· ≠ c) with
    | [] => none
    | _ :: ':' :: ':' :: _ => some .optional
    | _ :: ':' :: _ => some .required
    | _ :: _ => some .no

/-- The value that a long option returns. -/
def LongOption.ret (o : LongOption) : Char := if o.flag then '\x00' else o.val

/-- Where the scan of a table for `name` stops: the index of the first entry
that has this name or none.  It is `none` when the scan runs off the table. -/
def scan (table : List LongOption) (name : List Char) : Option Nat :=
  table.findIdx? fun o => o.name = none ∨ o.name = some name

/-- In a table without a null name the scan stops for the declared names only. -/
theorem scan_stops_iff {table : List LongOption} (h : ∀ o ∈ table, o.name ≠ none)
    (name : List Char) :
    (∃ i, scan table name = some i ∧ i < table.length) ↔ ∃ o ∈ table, o.name = some name := by
  constructor
  · rintro ⟨i, hi, _⟩
    obtain ⟨hlt, hname, _⟩ := List.findIdx?_eq_some_iff_getElem.mp hi
    have hmem := List.getElem_mem hlt
    exact ⟨_, hmem, (of_decide_eq_true hname).resolve_left (h _ hmem)⟩
  · rintro ⟨o, ho, hname⟩
    cases hscan : scan table name with
    | none =>
        have hnone := List.findIdx?_eq_none_iff.mp hscan o ho
        simp [hname] at hnone
    | some i =>
        obtain ⟨hlt, _⟩ := List.findIdx?_eq_some_iff_getElem.mp hscan
        exact ⟨i, rfl, hlt⟩

/-- The entries before the end of a table. -/
def entries (table : List LongOption) : List LongOption := table.takeWhile (·.name.isSome)

/-- `name` abbreviates the name of the entry. -/
def LongOption.abbreviated (name : List Char) (o : LongOption) : Bool :=
  name.isPrefixOf (o.name.getD [])

/-- Two entries that do the same. -/
def LongOption.same (o o' : LongOption) : Bool :=
  o.hasArg = o'.hasArg && o.flag = o'.flag && o.val = o'.val

/-- The entry that `name` stands for: the one of this name, or else the only one
that it abbreviates.  It is `none` when there is no such entry or the name is
ambiguous. -/
def lookup (table : List LongOption) (name : List Char) : Option LongOption :=
  match (entries table).find? fun o => o.name = some name with
  | some o => some o
  | none =>
      match (entries table).filter (LongOption.abbreviated name) with
      | [] => none
      | o :: os => if os.all o.same then some o else none

/-! ## Elements -/

/-- The element is no option: it does not begin with `-`, or is just that. -/
def isNonoption : List Char → Bool
  | '-' :: _ :: _ => false
  | _ => true

/-- The name in a long option. -/
def nameOf (body : List Char) : List Char := body.takeWhile (· ≠ '=')

/-- The argument attached to a long option. -/
def valueOf (body : List Char) : Option (List Char) := (body.dropWhile (· ≠ '=')).tail?

/-- A long option, given behind its dashes, with the element `next` behind it;
the `Bool` tells whether it takes that element. -/
def longToken (opts : Options) (next : Option (List Char)) (body : List Char) : Token × Bool :=
  match lookup opts.long (nameOf body) with
  | none => (.bad (some (nameOf body)), false)
  | some o =>
      match valueOf body, o.hasArg with
      | some _, .no => (.bad (some (nameOf body)), false)
      | some v, _ => (.opt (some (nameOf body)) o.ret (some v), false)
      | none, .required =>
          match next with
          | none => (.bad (some (nameOf body)), false)
          | some a => (.opt (some (nameOf body)) o.ret (some a), true)
      | none, _ => (.opt (some (nameOf body)) o.ret none, false)

/-- A bundle of short options, with the element `next` behind it. -/
def shortTokens (opts : Options) (next : Option (List Char)) : List Char → List Token × Bool
  | [] => ([], false)
  | c :: cs =>
      match shortArg opts.short c with
      | none => (.bad none :: (shortTokens opts next cs).1, (shortTokens opts next cs).2)
      | some .no => (.opt none c none :: (shortTokens opts next cs).1, (shortTokens opts next cs).2)
      | some .optional => ([.opt none c (if cs = [] then none else some cs)], false)
      | some .required =>
          if cs = [] then
            match next with
            | none => ([.bad none], false)
            | some a => ([.opt none c (some a)], true)
          else ([.opt none c (some cs)], false)

/-- An element that is an option. -/
def elementTokens (opts : Options) (next : Option (List Char)) : List Char → List Token × Bool
  | '-' :: '-' :: body => ([(longToken opts next body).1], (longToken opts next body).2)
  | '-' :: cs => shortTokens opts next cs
  | _ => ([], false)

/-- **The command line**: its options and its other arguments.  `taken` tells
that the first element is the argument of an option before it. -/
def decode (opts : Options) : Bool → List (List Char) → List Token × List (List Char)
  | _, [] => ([], [])
  | true, _ :: as => decode opts false as
  | false, a :: as =>
      if a = ['-', '-'] then ([], as)
      else if isNonoption a then ((decode opts false as).1, a :: (decode opts false as).2)
      else
        ((elementTokens opts as.head? a).1 ++ (decode opts (elementTokens opts as.head? a).2 as).1,
          (decode opts (elementTokens opts as.head? a).2 as).2)

/-! ## What the tokens say -/

/-- An argument that such an option can have. -/
def HasArg.Fits : HasArg → Option (List Char) → Prop
  | no, arg => arg = none
  | required, arg => arg.isSome = true
  | optional, _ => True

/-- An option is one that is declared, with an argument as declared. -/
def Token.Genuine (opts : Options) : Token → Prop
  | opt none c arg => ∃ k, shortArg opts.short c = some k ∧ k.Fits arg
  | opt (some name) val arg => ∃ o, lookup opts.long name = some o ∧ val = o.ret ∧ o.hasArg.Fits arg
  | bad _ => True

theorem mem_of_shortArg {optstring : List Char} {c : Char} {k : HasArg}
    (h : shortArg optstring c = some k) : c ∈ optstring := by
  unfold shortArg at h
  split at h
  · contradiction
  · by_contra hc
    have hdrop : optstring.dropWhile (· ≠ c) = [] := by
      rw [List.dropWhile_eq_nil_iff]
      intro d hd
      simpa using fun hdc : d = c => hc (hdc ▸ hd)
    rw [hdrop] at h
    contradiction

theorem mem_of_lookup {table : List LongOption} {name : List Char} {o : LongOption}
    (h : lookup table name = some o) : o ∈ table := by
  have hsub := List.takeWhile_subset (·.name.isSome) (l := table)
  unfold lookup at h
  split at h
  · next o' hfind =>
      obtain rfl := Option.some.inj h
      exact hsub (List.mem_of_find?_eq_some hfind)
  · split at h
    · contradiction
    · next o' os hfilter =>
        split at h
        · obtain rfl := Option.some.inj h
          have ho' : o' ∈ (entries table).filter (LongOption.abbreviated name) := by simp [hfilter]
          exact hsub (List.mem_filter.mp ho').1
        · contradiction

theorem longToken_genuine (opts : Options) (next : Option (List Char)) (body : List Char) :
    (longToken opts next body).1.Genuine opts := by
  unfold longToken
  split
  · trivial
  · next o ho =>
      split
      · trivial
      · next hk =>
          refine ⟨o, ho, rfl, ?_⟩
          cases hkind : o.hasArg with grind [HasArg.Fits]
      · next hkind =>
          split
          · trivial
          · exact ⟨o, ho, rfl, by rw [hkind]; rfl⟩
      · next hkind =>
          refine ⟨o, ho, rfl, ?_⟩
          cases hkind' : o.hasArg with grind [HasArg.Fits]

theorem shortTokens_genuine (opts : Options) (next : Option (List Char)) (cs : List Char) :
    ∀ t ∈ (shortTokens opts next cs).1, t.Genuine opts := by
  induction cs with
  | nil => simp [shortTokens]
  | cons c cs ih =>
      unfold shortTokens
      cases hc : shortArg opts.short c with
      | none => exact List.forall_mem_cons.mpr ⟨trivial, ih⟩
      | some k =>
          cases k with
          | no => exact List.forall_mem_cons.mpr ⟨⟨_, hc, rfl⟩, ih⟩
          | optional => exact List.forall_mem_singleton.mpr ⟨_, hc, trivial⟩
          | required =>
              by_cases hcs : cs = []
              · cases next with
                | none => simp [hcs, Token.Genuine]
                | some a => simpa [hcs] using ⟨_, hc, rfl⟩
              · simpa [hcs] using ⟨_, hc, rfl⟩

/-- **Every option of a command line is declared.** -/
theorem decode_genuine (opts : Options) (taken : Bool) (args : List (List Char)) :
    ∀ t ∈ (decode opts taken args).1, t.Genuine opts := by
  induction args generalizing taken with
  | nil => simp [decode]
  | cons a as ih =>
      cases taken with
      | true => exact ih false
      | false =>
          rw [decode]
          split
          · simp
          · split
            · exact ih false
            · intro t ht
              rcases List.mem_append.mp ht with ht | ht
              · unfold elementTokens at ht
                split at ht
                · rw [List.mem_singleton.mp ht]
                  exact longToken_genuine opts _ _
                · exact shortTokens_genuine opts _ _ t ht
                · contradiction
              · exact ih _ t ht

end Getopt
