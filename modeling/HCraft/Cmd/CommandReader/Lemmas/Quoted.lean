import HCraft.Cmd.CommandReader.Lemmas.Parse

/-!
This module contains which quoted arguments are parsed back to the strings they were written from.
-/

namespace HCraft

namespace CommandReader

/--
A backslash goes in front of backslashes and double quotes.
-/
def escape (c : UInt8) : Bytes :=
  if c = 92 ∨ c = 34 then [92, c] else [c]

def quote (s : Bytes) : Bytes :=
  [34] ++ s.flatMap escape ++ [34]

/--
What an escaped character becomes: it is added by the `switch`, and once more behind it.
-/
def doubled (c : UInt8) : Bytes :=
  if c = 92 ∨ c = 34 then [c, c] else [c]

/--
Quoted arguments with whitespace between them
-/
inductive RendersQuoted : List Bytes → Bytes → Prop where
  | nil : RendersQuoted [] []
  | cons {s : Bytes} {strs : List Bytes} {gap rest : Bytes} (hgap : Gap gap rest)
      (hrest : RendersQuoted strs rest) : RendersQuoted (s :: strs) (quote s ++ (gap ++ rest))

section Value

variable {val rest : Bytes} {c : UInt8}

theorem parseStringLoop_quote : parseStringLoop val (34 :: rest) = .ok (val, rest) := by
  rw [parseStringLoop.eq_def]
  rfl

theorem parseStringLoop_escaped (h : c = 92 ∨ c = 34)
    : parseStringLoop val (92 :: c :: rest) = parseStringLoop (val ++ [c, c]) rest := by
  rw [parseStringLoop.eq_def]
  dsimp only
  rw [if_neg (by decide), if_pos rfl]
  rcases h with rfl | rfl
  . rw [if_pos rfl, List.append_assoc]
    rfl
  . rw [if_neg (by decide), if_pos rfl, List.append_assoc]
    rfl

theorem parseStringLoop_char (h : ¬ (c = 92 ∨ c = 34))
    : parseStringLoop val (c :: rest) = parseStringLoop (val ++ [c]) rest := by
  rw [not_or] at h
  rw [parseStringLoop.eq_def]
  dsimp only
  rw [if_neg h.2, if_neg h.1]

theorem parseStringLoop_escape (s val : Bytes)
    : parseStringLoop val (s.flatMap escape ++ 34 :: rest) = .ok (val ++ s.flatMap doubled, rest) := by
  induction s generalizing val with
  | nil => rw [List.flatMap_nil, List.nil_append, parseStringLoop_quote, List.flatMap_nil,
      List.append_nil]
  | cons c s ih =>
    rw [List.flatMap_cons, List.flatMap_cons, escape, doubled]
    by_cases hescaped : c = 92 ∨ c = 34
    . rw [if_pos hescaped, if_pos hescaped, List.cons_append, List.cons_append, List.cons_append,
        List.cons_append, List.nil_append, parseStringLoop_escaped hescaped, ih, List.append_assoc]
    . rw [if_neg hescaped, if_neg hescaped, List.append_assoc, List.singleton_append,
        parseStringLoop_char hescaped, ih, List.append_assoc]

theorem flatMap_doubled_eq_iff (s : Bytes)
    : s.flatMap doubled = s ↔ ∀ c ∈ s, ¬ (c = 92 ∨ c = 34) := by
  have hlen : ∀ s : Bytes, s.length ≤ (s.flatMap doubled).length := by
    intro s
    induction s with
    | nil => simp
    | cons c s ih =>
      rw [List.flatMap_cons, List.length_append, List.length_cons, doubled]
      split
      . rw [List.length_cons, List.length_singleton]
        omega
      . rw [List.length_singleton]
        omega
  induction s with
  | nil => simp
  | cons c s ih =>
    rw [List.flatMap_cons, List.forall_mem_cons, doubled]
    by_cases hescaped : c = 92 ∨ c = 34
    . rw [if_pos hescaped]
      apply iff_of_false
      . intro heq
        have hlong := hlen s
        have := congrArg List.length heq
        rw [List.length_append, List.length_cons, List.length_singleton, List.length_cons] at this
        omega
      . exact fun h => h.1 hescaped
    . rw [if_neg hescaped, List.singleton_append, List.cons.injEq]
      simp only [hescaped, not_false_eq_true, true_and, ih]

end Value

section Commands

variable {reader : CommandReader} {strs : List Bytes} {line lead rest : Bytes}

theorem quote_append (s : Bytes) : quote s ++ rest = 34 :: (s.flatMap escape ++ 34 :: rest) := by
  rw [quote, List.append_assoc, List.append_assoc]
  rfl

theorem stops_quote (s : Bytes) : Stops isSpace (quote s ++ rest) := by
  rw [quote_append]
  exact stops_cons rfl

theorem RendersQuoted.stops (h : RendersQuoted strs line) : Stops isSpace line := by
  cases h with
  | nil => simp [Stops]
  | cons hgap hrest => exact stops_quote _

theorem parseNext_quote {s : Bytes} (hss : reader.ss = quote s ++ rest)
    : reader.parseNext = .ok { reader with
        ss := rest
        args := reader.args ++ [{ val := s.flatMap doubled, spc := reader.spc }] } := by
  have hloop := @parseStringLoop_escape rest s []
  rw [quote_append] at hss
  have hcond : ¬ ((34 : UInt8) = 45 && (s.flatMap escape ++ 34 :: rest).head?.any
      (fun c => c == 45 || isAlpha c) && reader.pOpts) = true := by
    simp
  have harg : reader.parseArg
      = .ok (some { val := s.flatMap doubled, spc := reader.spc }, { reader with ss := rest }) := by
    rw [parseArg, hss]
    dsimp only
    rw [if_pos rfl, parseString, hss, List.drop_one, List.tail_cons, hloop]
    rfl
  rw [parseNext, hss]
  dsimp only
  rw [if_neg hcond, harg]
  rfl

theorem parseLoop_quoted (h : RendersQuoted strs line) {fuel : Nat} (hfuel : line.length < fuel)
    (hlead : ∀ c ∈ lead, isSpace c = true) (hss : reader.ss = lead ++ line)
    : ∃ reader', parseLoop fuel reader = .ok reader'
        ∧ reader'.args.map (·.val)
            = reader.args.map (·.val) ++ strs.map (fun s => s.flatMap doubled) := by
  induction h generalizing fuel lead reader with
  | nil =>
    cases fuel with
    | zero => simp at hfuel
    | succ fuel => exact ⟨_, parseLoop_nil (by rw [hss, List.append_nil]) hlead, by simp⟩
  | @cons s strs gap rest hgap hrest ih =>
    cases fuel with
    | zero => simp at hfuel
    | succ fuel =>
      rw [quote_append] at hfuel
      simp only [List.length_cons, List.length_append] at hfuel
      obtain ⟨reader', hrun, hargs⟩ := @ih
        { reader with
          ss := gap ++ rest
          spc := lead.length
          args := reader.args ++ [{ val := s.flatMap doubled, spc := lead.length }] } gap fuel
        (by omega) hgap.1 rfl
      refine ⟨reader', ?_, by rw [hargs]; simp⟩
      rw [parseLoop_succ hss hlead (stops_quote s) (by simp [quote]) (parseNext_quote rfl)]
      exact hrun

/--
There is one argument for each quoted string, and it is the string if that contains neither
backslashes nor double quotes.
-/
theorem parse_quoted_iff (opts : List CommandOption) (strs : List Bytes) (line lead : Bytes)
    (h : RendersQuoted strs line) (hlead : ∀ c ∈ lead, isSpace c = true)
    : ∃ reader, parse { new with opts } (lead ++ line) = .ok reader
        ∧ reader.args.length = strs.length
        ∧ ∀ (i : Nat) (arg : Argument) (s : Bytes),
          reader.args[i]? = some arg → strs[i]? = some s →
          (arg.val = s ↔ ∀ c ∈ s, ¬ (c = 92 ∨ c = 34)) := by
  obtain ⟨reader, hrun, hargs⟩ := @parseLoop_quoted { new with opts, ss := lead ++ line } strs line
    lead h ((lead ++ line).length + 1) (by rw [List.length_append]; omega) hlead rfl
  refine ⟨{ reader with argi := 0 }, parse_of_parseLoop hrun, ?_, ?_⟩
  . have hlen := congrArg List.length hargs
    simpa [new] using hlen
  . intro i arg s harg hs
    have hval := congrArg (·[i]?) hargs
    simp only [new, List.map_nil, List.nil_append, List.getElem?_map, harg, hs, Option.map_some,
      Option.some.injEq] at hval
    rw [hval]
    exact flatMap_doubled_eq_iff s

/--
`"a" "b"`
-/
theorem parse_quoted_iff_ab
    : ∃ reader, parse { new with opts := [] } ([] ++ [34, 97, 34, 32, 34, 98, 34]) = .ok reader
        ∧ reader.args.length = [[97], [98]].length
        ∧ ∀ (i : Nat) (arg : Argument) (s : Bytes),
          reader.args[i]? = some arg → [[97], [98]][i]? = some s →
          (arg.val = s ↔ ∀ c ∈ s, ¬ (c = 92 ∨ c = 34)) :=
  parse_quoted_iff [] [[97], [98]] [34, 97, 34, 32, 34, 98, 34] []
    (@RendersQuoted.cons [97] [[98]] [32] _ ⟨by simp [isSpace], by simp⟩
      (@RendersQuoted.cons [98] [] [] [] ⟨by simp, by simp⟩ .nil)) (by simp)

/--
`"\\"`, the string of one backslash, is read as two of them.
-/
theorem not_parse_quoted_backslash
    : RendersQuoted [[92]] [34, 92, 92, 34]
        ∧ ¬ ∃ reader, parse new [34, 92, 92, 34] = .ok reader
          ∧ reader.args.map (·.val) = [[92]] := by
  refine ⟨@RendersQuoted.cons [92] [] [] [] ⟨by simp, by simp⟩ .nil, ?_⟩
  rintro ⟨reader, hrun, hargs⟩
  have htwo : (parse new [34, 92, 92, 34]).map (fun reader => reader.args.map (·.val))
      = .ok [[92, 92]] := rfl
  rw [hrun] at htwo
  injection htwo with htwo
  exact absurd (hargs.symm.trans htwo) (by decide)

end Commands

end CommandReader

end HCraft
