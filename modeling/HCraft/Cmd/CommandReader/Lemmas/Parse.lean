import HCraft.Cmd.CommandReader.Impl
import Mathlib.Data.List.Nodup
import Mathlib.Data.List.TakeWhile
import Mathlib.Logic.Function.Basic

/-!
This module contains that commands are parsed as the grammar of options and words says.
-/

namespace HCraft

namespace CommandReader

section Scan

variable {p : UInt8 → Bool} {w rest : Bytes}

def Stops (p : UInt8 → Bool) (rest : Bytes) : Prop :=
  ∀ c ∈ rest.head?, p c = false

theorem stops_cons {c : UInt8} (h : p c = false) : Stops p (c :: rest) := by
  intro c' hc'
  rw [List.head?_cons, Option.mem_some_iff] at hc'
  rw [← hc']
  exact h

theorem takeWhile_of_stops (h : Stops p rest) : rest.takeWhile p = [] := by
  cases rest with
  | nil => rfl
  | cons c rest => rw [List.takeWhile_cons_of_neg (by simp [h c rfl])]

theorem dropWhile_of_stops (h : Stops p rest) : rest.dropWhile p = rest := by
  cases rest with
  | nil => rfl
  | cons c rest => rw [List.dropWhile_cons_of_neg (by simp [h c rfl])]

theorem takeWhile_append (hw : ∀ c ∈ w, p c = true) (h : Stops p rest)
    : (w ++ rest).takeWhile p = w := by
  rw [List.takeWhile_append_of_pos hw, takeWhile_of_stops h, List.append_nil]

theorem dropWhile_append (hw : ∀ c ∈ w, p c = true) (h : Stops p rest)
    : (w ++ rest).dropWhile p = rest := by
  rw [List.dropWhile_append_of_pos hw, dropWhile_of_stops h]

end Scan

section Words

/--
A sequence of bytes that `parse_arg` reads as it stands
-/
structure Word (w : Bytes) : Prop where
  ne_nil : w ≠ []
  no_space : ∀ c ∈ w, isSpace c = false
  no_quote : w.head? ≠ some 34

/--
Whitespace or the end of the input
-/
def Ends (rest : Bytes) : Prop :=
  ∀ c ∈ rest.head?, isSpace c = true

variable {reader : CommandReader} {w rest : Bytes}

theorem Word.stops (h : Word w) : Stops isSpace (w ++ rest) := by
  cases w with
  | nil => exact absurd rfl h.ne_nil
  | cons c w => exact stops_cons (h.no_space c List.mem_cons_self)

theorem ends_cons {c : UInt8} (h : isSpace c = true) : Ends (c :: rest) := by
  intro c' hc'
  rw [List.head?_cons, Option.mem_some_iff] at hc'
  rw [← hc']
  exact h

theorem Ends.stops (h : Ends rest) : Stops (!isSpace ·) rest := by
  intro c hc
  simp [h c hc]

theorem Ends.stops_alpha (h : Ends rest) : Stops isAlpha rest := by
  have hall : ∀ n : Fin 256,
      isSpace (UInt8.ofNat n.val) = true → isAlpha (UInt8.ofNat n.val) = false := by
    decide +kernel
  intro c hc
  have halpha := hall ⟨c.toNat, c.toNat_lt⟩
  rw [UInt8.ofNat_toNat] at halpha
  exact halpha (h c hc)

theorem skipWhitespace_append {lead : Bytes} (hss : reader.ss = lead ++ rest)
    (hlead : ∀ c ∈ lead, isSpace c = true) (h : Stops isSpace rest)
    : reader.skipWhitespace = { reader with ss := rest, spc := lead.length } := by
  rw [skipWhitespace, hss, takeWhile_append hlead h, dropWhile_append hlead h]

theorem parseArg_word (hss : reader.ss = w ++ rest) (hw : Word w) (h : Ends rest)
    : reader.parseArg = .ok (some { val := w, spc := reader.spc }, { reader with ss := rest }) := by
  obtain ⟨hne, hspace, hquote⟩ := hw
  have hnot : ∀ c ∈ w, (!isSpace c) = true := by
    intro c hc
    rw [hspace c hc]
    rfl
  have htake := takeWhile_append hnot h.stops
  have hdrop := dropWhile_append hnot h.stops
  cases w with
  | nil => exact absurd rfl hne
  | cons c w =>
    have hc : c ≠ 34 := fun heq => hquote (by rw [heq]; rfl)
    unfold parseArg
    rw [List.cons_append] at hss htake hdrop
    rw [hss]
    dsimp only
    rw [if_neg hc, htake, hdrop]
    rfl

end Words

section Options

/--
What `add_opt` is called with: short names are distinct letters and long names are distinct and not
cut short by the reader.
-/
structure Table (opts : List CommandOption) : Prop where
  fresh : ∀ o ∈ opts, o.arg = none ∧ o.enc = false
  alpha : ∀ o ∈ opts, isAlpha o.shortName = true
  longName_ne_nil : ∀ o ∈ opts, o.longName ≠ []
  longName_plain : ∀ o ∈ opts, ∀ c ∈ o.longName, isSpace c = false ∧ c ≠ 61
  nodup_shortName : (opts.map (·.shortName)).Nodup
  nodup_longName : (opts.map (·.longName)).Nodup

theorem table_new : Table new.opts := by
  constructor
  all_goals simp [new]

theorem Table.addOpt {reader : CommandReader} (h : Table reader.opts) {shortName : UInt8}
    {longName : Bytes} (halpha : isAlpha shortName = true) (hne : longName ≠ [])
    (hplain : ∀ c ∈ longName, isSpace c = false ∧ c ≠ 61)
    (hshort : shortName ∉ reader.opts.map (·.shortName))
    (hlong : longName ∉ reader.opts.map (·.longName)) (argReq req : Bool)
    : Table (reader.addOpt shortName longName argReq req).opts := by
  have hall {P : CommandOption → Prop} (hold : ∀ o ∈ reader.opts, P o)
      (hnew : P { shortName, longName, argReq, req, arg := none, enc := false })
      : ∀ o ∈ (reader.addOpt shortName longName argReq req).opts, P o := by
    intro o ho
    rw [CommandReader.addOpt, List.mem_append, List.mem_singleton] at ho
    cases ho with
    | inl ho => exact hold o ho
    | inr ho => exact ho ▸ hnew
  refine ⟨hall h.fresh ⟨rfl, rfl⟩, hall h.alpha halpha, hall h.longName_ne_nil hne,
    hall h.longName_plain hplain, ?_, ?_⟩
  . rw [CommandReader.addOpt, List.map_append, List.map_singleton, ← List.concat_eq_append]
    exact List.Nodup.concat hshort h.nodup_shortName
  . rw [CommandReader.addOpt, List.map_append, List.map_singleton, ← List.concat_eq_append]
    exact List.Nodup.concat hlong h.nodup_longName

/--
An option with what is known about it
-/
def seen (enc : CommandOption → Bool) (arg : CommandOption → Option Argument) (o : CommandOption)
    : CommandOption :=
  { o with enc := enc o, arg := arg o }

variable {opts : List CommandOption} {o : CommandOption} {reader : CommandReader} {i : Nat}
variable {enc : CommandOption → Bool} {arg : CommandOption → Option Argument}

theorem findIdx?_of_nodup {β : Type} [BEq β] [LawfulBEq β] {key : CommandOption → β}
    (hnodup : (opts.map key).Nodup) (ho : o ∈ opts)
    : ∃ i, opts.findIdx? (key · == key o) = some i ∧ opts[i]? = some o := by
  cases hfind : opts.findIdx? (key · == key o) with
  | none =>
    have hne := List.findIdx?_eq_none_iff.mp hfind o ho
    simp at hne
  | some i =>
    obtain ⟨hlt, hkey, _⟩ := List.findIdx?_eq_some_iff_getElem.mp hfind
    refine ⟨i, rfl, ?_⟩
    rw [List.getElem?_eq_getElem hlt, Option.some.injEq]
    exact List.inj_on_of_nodup_map hnodup (List.getElem_mem hlt) ho (by simpa using hkey)

theorem nodup_of_table (h : Table opts) : opts.Nodup :=
  List.Nodup.of_map _ h.nodup_shortName

theorem modify_map (hnodup : opts.Nodup) (hi : opts[i]? = some o)
    (u f : CommandOption → CommandOption)
    : (opts.map u).modify i f = opts.map (fun o' => if o' = o then f (u o') else u o') := by
  apply List.ext_getElem?
  intro j
  rw [List.getElem?_modify, List.getElem?_map, List.getElem?_map]
  cases hj : opts[j]? with
  | none => simp
  | some o' =>
    have hiff : o' = o ↔ i = j := by
      constructor
      . intro heq
        rw [heq, ← hi] at hj
        have hlt : i < opts.length := (List.getElem?_eq_some_iff.mp hi).1
        exact (List.getElem?_inj hlt hnodup).mp hj.symm
      . intro heq
        rw [heq, hj, Option.some.injEq] at hi
        exact hi
    by_cases heq : i = j
    . simp [heq, hiff]
    . simp [heq, hiff]

theorem modify_seen (h : Table opts) (hopts : reader.opts = opts.map (seen enc arg))
    (hi : opts[i]? = some o) {f : CommandOption → CommandOption} {enc' : CommandOption → Bool}
    {arg' : CommandOption → Option Argument} (hf : f (seen enc arg o) = seen enc' arg' o)
    (henc : ∀ o', o' ≠ o → enc' o' = enc o') (harg : ∀ o', o' ≠ o → arg' o' = arg o')
    : reader.opts.modify i f = opts.map (seen enc' arg') := by
  rw [hopts, modify_map (nodup_of_table h) hi]
  apply List.map_congr_left
  intro o' _
  by_cases heq : o' = o
  . rw [if_pos heq, heq, hf]
  . rw [if_neg heq, seen, seen, henc o' heq, harg o' heq]

theorem markEnc_eq (h : Table opts) (hopts : reader.opts = opts.map (seen enc arg))
    (hi : opts[i]? = some o)
    : (reader.markEnc i).opts = opts.map (seen (Function.update enc o true) arg) := by
  apply modify_seen h hopts hi
  . rw [seen, seen, Function.update_self]
  . exact fun o' ho' => Function.update_of_ne ho' _ _
  . exact fun _ _ => rfl

theorem setArg_eq (h : Table opts) (hopts : reader.opts = opts.map (seen enc arg))
    (hi : opts[i]? = some o) (a : Option Argument)
    : (reader.setArg i a).opts = opts.map (seen enc (Function.update arg o a)) := by
  apply modify_seen h hopts hi
  . rw [seen, seen, Function.update_self]
  . exact fun _ _ => rfl
  . exact fun o' ho' => Function.update_of_ne ho' _ _

theorem findIdx?_seen {β : Type} [BEq β] [LawfulBEq β] {key : CommandOption → β}
    (hkey : ∀ o, key (seen enc arg o) = key o) (hopts : reader.opts = opts.map (seen enc arg))
    (hnodup : (opts.map key).Nodup) (ho : o ∈ opts)
    : ∃ i, reader.opts.findIdx? (key · == key o) = some i ∧ opts[i]? = some o := by
  rw [hopts, List.findIdx?_map]
  have hcomp : (fun o' => key o' == key o) ∘ seen enc arg = (fun o' => key o' == key o) := by
    funext o'
    rw [Function.comp, hkey]
  rw [hcomp]
  exact findIdx?_of_nodup hnodup ho

theorem getElem?_seen (hopts : reader.opts = opts.map (seen enc arg)) (hi : opts[i]? = some o)
    : reader.opts[i]? = some (seen enc arg o) := by
  rw [hopts, List.getElem?_map, hi, Option.map_some]

end Options

/--
What a command consists of before the end of options
-/
inductive CommandItem where
  | word (w : Bytes)
  | long (o : CommandOption) -- --name
  | longArg (o : CommandOption) (w : Bytes) -- --name=word
  | short (o : CommandOption) -- -x
  | shortArg (o : CommandOption) (gap w : Bytes) -- -x word
  | group (os : List CommandOption) -- -xyz

namespace CommandItem

def text : CommandItem → Bytes
  | word w => w
  | long o => [45, 45] ++ o.longName
  | longArg o w => [45, 45] ++ o.longName ++ [61] ++ w
  | short o => [45] ++ [o.shortName]
  | shortArg o gap w => [45] ++ [o.shortName] ++ gap ++ w
  | group os => [45] ++ os.map (·.shortName)

/--
Options are registered, and take an argument if they have to. The word behind `-x` stands apart
unless it cannot be taken for another letter.
-/
def Valid (opts : List CommandOption) : CommandItem → Prop
  | word w => Word w ∧ ∀ c rest, w = 45 :: c :: rest → c ≠ 45 ∧ isAlpha c = false
  | long o => o ∈ opts ∧ o.argReq = false
  | longArg o w => o ∈ opts ∧ Word w
  | short o => o ∈ opts ∧ o.argReq = false
  | shortArg o gap w => o ∈ opts ∧ o.argReq = true ∧ Word w
    ∧ (∀ c ∈ gap, isSpace c = true) ∧ (gap = [] → Stops isAlpha w)
  | group os => 2 ≤ os.length ∧ ∀ o ∈ os, o ∈ opts ∧ o.argReq = false

def words : CommandItem → List Bytes
  | word w => [w]
  | _ => []

/--
The options that occur
-/
def opts : CommandItem → List CommandOption
  | word _ => []
  | long o | longArg o _ | short o | shortArg o _ _ => [o]
  | group os => os

/--
The argument that is given to `o`
-/
def argOf (o : CommandOption) : CommandItem → Option Bytes
  | longArg o' w | shortArg o' _ w => if o = o' then some w else none
  | _ => none

end CommandItem

section Items

variable {opts : List CommandOption} {reader : CommandReader} {rest : Bytes}
variable {enc : CommandOption → Bool} {arg : CommandOption → Option Argument}

/--
What the reader does with an item that stands in front of `rest`.
-/
structure Takes (opts : List CommandOption) (item : CommandItem) (enc : CommandOption → Bool)
    (arg : CommandOption → Option Argument) (rest : Bytes) (reader reader' : CommandReader)
    (enc' : CommandOption → Bool) (arg' : CommandOption → Option Argument) : Prop where
  ss_eq : reader'.ss = rest
  pOpts_eq : reader'.pOpts = reader.pOpts
  args_eq : reader'.args.map (·.val) = reader.args.map (·.val) ++ item.words
  opts_eq : reader'.opts = opts.map (seen enc' arg')
  enc_iff : ∀ o, enc' o = true ↔ enc o = true ∨ o ∈ item.opts
  arg_eq : ∀ o, (arg' o).map (·.val) = (item.argOf o).or ((arg o).map (·.val))

theorem parseLetters_map (h : Table opts) {os : List CommandOption} (hos : ∀ o ∈ os, o ∈ opts)
    (hopts : reader.opts = opts.map (seen enc arg)) (hstop : Stops isAlpha rest) (encOpts : List Nat)
    : ∃ is reader' enc', reader.parseLetters encOpts (os.map (·.shortName) ++ rest)
          = .ok (encOpts ++ is, reader')
        ∧ is.map (opts[·]?) = os.map some
        ∧ reader' = { reader with ss := rest, opts := opts.map (seen enc' arg) }
        ∧ ∀ o, enc' o = true ↔ enc o = true ∨ o ∈ os := by
  induction os generalizing reader enc encOpts with
  | nil =>
    refine ⟨[], { reader with ss := rest }, enc, ?_, rfl, by rw [hopts], by simp⟩
    rw [List.map_nil, List.nil_append, List.append_nil]
    cases rest with
    | nil => rfl
    | cons c rest =>
      rw [parseLetters, hstop c rfl]
      rfl
  | cons o os ih =>
    obtain ⟨ho, hos⟩ := List.forall_mem_cons.mp hos
    obtain ⟨i, hfind, hi⟩ := @findIdx?_seen opts o reader enc arg UInt8 _ _ (·.shortName)
      (fun _ => rfl) hopts h.nodup_shortName ho
    obtain ⟨is, reader', enc', hrun, his, heq, henc⟩ := ih hos (markEnc_eq h hopts hi)
      (encOpts ++ [i])
    refine ⟨i :: is, reader', enc', ?_, ?_, heq, ?_⟩
    . rw [List.map_cons, List.cons_append, parseLetters, h.alpha o ho, hfind]
      dsimp only
      rw [Bool.not_true, if_neg (by simp), hrun, List.append_assoc, List.singleton_append]
    . rw [List.map_cons, List.map_cons, hi, his]
    . intro o'
      rw [henc, List.mem_cons]
      by_cases heq' : o' = o
      . simp [heq']
      . simp [heq']

section LongOpt

variable {o : CommandOption}

theorem parseLongOpt_eq (h : Table opts) (ho : o ∈ opts)
    (hopts : reader.opts = opts.map (seen enc arg)) (hss : reader.ss = 45 :: (o.longName ++ rest))
    (hstop : Stops (fun c => c != 61 && !isSpace c) rest)
    : ∃ i, opts[i]? = some o ∧ reader.parseLongOpt
        = (do
          let reader ← parseLongArg
            { reader with ss := rest, opts := opts.map (seen (Function.update enc o true) arg) } i
          if reader.opts[i]?.any (fun opt => opt.argReq && opt.arg.isNone) then
            .error (.parseError (text "expected argument after option (--" ++ o.longName ++ text ")"))
          else
            return reader) := by
  have hplain : ∀ c ∈ o.longName, (c != 61 && !isSpace c) = true := by
    intro c hc
    simp [h.longName_plain o ho c hc]
  obtain ⟨i, hfind, hi⟩ := @findIdx?_seen opts o reader enc arg Bytes _ _ (·.longName)
    (fun _ => rfl) hopts h.nodup_longName ho
  refine ⟨i, hi, ?_⟩
  have hhead : ¬ (o.longName ++ rest).head?.all isSpace = true := by
    cases hname : o.longName with
    | nil => exact absurd hname (h.longName_ne_nil o ho)
    | cons c name =>
      have hc := (h.longName_plain o ho c (by rw [hname]; exact List.mem_cons_self)).1
      simp [hc]
  have hmark : ({ reader with ss := rest } : CommandReader).markEnc i
      = { reader with
          ss := rest
          opts := opts.map (seen (Function.update enc o true) arg) } := by
    rw [← markEnc_eq h hopts hi]
    rfl
  unfold parseLongOpt
  rw [hss, List.drop_one, List.tail_cons]
  dsimp only
  rw [if_neg hhead, takeWhile_append hplain hstop, dropWhile_append hplain hstop, hfind]
  dsimp only
  rw [hmark]

theorem parseLongArg_ends (h : Ends reader.ss) (i : Nat) : reader.parseLongArg i = .ok reader := by
  have hequals : ¬ reader.ss.head? = some 61 := by
    intro heq
    exact absurd (h 61 heq) (by decide)
  rw [parseLongArg, if_neg hequals]
  rfl

theorem parseLongArg_word {w : Bytes} (hss : reader.ss = 61 :: (w ++ rest)) (hw : Word w)
    (hends : Ends rest) (i : Nat)
    : reader.parseLongArg i
        = .ok (setArg { reader with ss := rest } i (some { val := w, spc := reader.spc })) := by
  have harg := @parseArg_word { reader with ss := w ++ rest } w rest rfl hw hends
  rw [parseLongArg, hss, List.drop_one, List.tail_cons, List.head?_cons, if_pos rfl, harg]
  rfl

theorem parseLongOpt_name (h : Table opts) (ho : o ∈ opts) (hreq : o.argReq = false)
    (hopts : reader.opts = opts.map (seen enc arg)) (hss : reader.ss = 45 :: (o.longName ++ rest))
    (hends : Ends rest)
    : reader.parseLongOpt = .ok { reader with
        ss := rest
        opts := opts.map (seen (Function.update enc o true) arg) } := by
  have hstop : Stops (fun c => c != 61 && !isSpace c) rest := by
    intro c hc
    simp [hends c hc]
  obtain ⟨i, hi, hrun⟩ := parseLongOpt_eq h ho hopts hss hstop
  rw [hrun, parseLongArg_ends hends]
  apply if_neg
  dsimp only
  rw [List.getElem?_map, hi, Option.map_some]
  simp [seen, hreq]

theorem parseLongOpt_arg (h : Table opts) (ho : o ∈ opts) {w : Bytes} (hw : Word w)
    (hopts : reader.opts = opts.map (seen enc arg))
    (hss : reader.ss = 45 :: (o.longName ++ (61 :: (w ++ rest)))) (hends : Ends rest)
    : reader.parseLongOpt = .ok { reader with
        ss := rest
        opts := opts.map (seen (Function.update enc o true)
          (Function.update arg o (some { val := w, spc := reader.spc }))) } := by
  have hstop : Stops (fun c => c != 61 && !isSpace c) (61 :: (w ++ rest)) := stops_cons rfl
  obtain ⟨i, hi, hrun⟩ := parseLongOpt_eq h ho hopts hss hstop
  have hset := @setArg_eq opts o { reader with
      ss := rest
      opts := opts.map (seen (Function.update enc o true) arg) } i _ _ h rfl hi
    (some { val := w, spc := reader.spc })
  rw [hrun, parseLongArg_word rfl hw hends, ← hset]
  apply if_neg
  rw [getElem?_seen hset hi]
  simp [seen]

end LongOpt

section ShortOpt

variable {o : CommandOption} {i : Nat}

theorem parseShort_flag (hopts : reader.opts = opts.map (seen enc arg)) (hi : opts[i]? = some o)
    (hreq : o.argReq = false) : reader.parseShort [i] = .ok reader := by
  apply if_neg
  rw [getElem?_seen hopts hi]
  simp [seen, hreq]

theorem parseShort_arg (h : Table opts) (hopts : reader.opts = opts.map (seen enc arg))
    (hi : opts[i]? = some o) (hreq : o.argReq = true) {gap w : Bytes}
    (hss : reader.ss = gap ++ (w ++ rest)) (hgap : ∀ c ∈ gap, isSpace c = true) (hw : Word w)
    (hends : Ends rest)
    : reader.parseShort [i] = .ok { reader with
        ss := rest
        opts := opts.map (seen enc
          (Function.update arg o (some { val := w, spc := gap.length })))
        spc := gap.length } := by
  have hskip := skipWhitespace_append hss hgap hw.stops
  have harg := @parseArg_word reader.skipWhitespace w rest (by rw [hskip]) hw hends
  have hset := @setArg_eq opts o { reader with ss := rest, spc := gap.length } i _ _ h hopts hi
    (some { val := w, spc := gap.length })
  have htakes : reader.opts[i]?.any (·.argReq) = true := by
    rw [getElem?_seen hopts hi]
    simp [seen, hreq]
  rw [parseShort, if_pos htakes, harg, hskip, ← hset]
  rfl

theorem parseShort_group (hopts : reader.opts = opts.map (seen enc arg)) {os : List CommandOption}
    {is : List Nat} (his : is.map (opts[·]?) = os.map some) (hlen : 2 ≤ os.length)
    (hreq : ∀ o ∈ os, o.argReq = false) : reader.parseShort is = .ok reader := by
  have hnone : ¬ is.any (fun i => reader.opts[i]?.any (·.argReq)) = true := by
    rw [List.any_eq_true]
    rintro ⟨i, hmem, hany⟩
    have hmem' : opts[i]? ∈ os.map some := by
      rw [← his]
      exact List.mem_map_of_mem hmem
    obtain ⟨o, ho, hi⟩ := List.mem_map.mp hmem'
    rw [getElem?_seen hopts hi.symm] at hany
    simp [seen, hreq o ho] at hany
  have hlen' := congrArg List.length his
  rw [List.length_map, List.length_map] at hlen'
  rcases is with _ | ⟨i, _ | ⟨j, is⟩⟩
  . simp at hlen'
    omega
  . simp at hlen'
    omega
  . exact if_neg hnone

/--
Letters are parsed as short options, unless the first of them is a dash.
-/
theorem parseOpt_letters (h : Table opts) (hopts : reader.opts = opts.map (seen enc arg))
    {os : List CommandOption} (hos : ∀ o ∈ os, o ∈ opts) (hne : os ≠ [])
    (hss : reader.ss = 45 :: (os.map (·.shortName) ++ rest)) (hstop : Stops isAlpha rest)
    : ∃ is enc', reader.parseOpt
          = parseShort { reader with ss := rest, opts := opts.map (seen enc' arg) } is
        ∧ is.map (opts[·]?) = os.map some
        ∧ ∀ o, enc' o = true ↔ enc o = true ∨ o ∈ os := by
  obtain ⟨is, reader', enc', hrun, his, heq, henc⟩ := parseLetters_map h hos hopts hstop []
  refine ⟨is, enc', ?_, his, henc⟩
  have hdash : ¬ (os.map (·.shortName) ++ rest).head? = some 45 := by
    cases os with
    | nil => exact absurd rfl hne
    | cons o os =>
      intro hhead
      have halpha := h.alpha o (hos o List.mem_cons_self)
      rw [List.map_cons, List.cons_append, List.head?_cons, Option.some.injEq] at hhead
      rw [hhead] at halpha
      exact absurd halpha (by decide)
  rw [parseOpt, hss, List.drop_one, List.tail_cons]
  dsimp only
  rw [if_neg hdash, hrun, heq]
  rfl

end ShortOpt

section Next

theorem parseNext_opt {c : UInt8} {ss : Bytes} (hss : reader.ss = 45 :: c :: ss)
    (hc : c = 45 ∨ isAlpha c = true) (hpOpts : reader.pOpts = true)
    : reader.parseNext = reader.parseOpt := by
  have hcond : (c == 45 || isAlpha c) = true := by simpa using hc
  rw [parseNext, hss]
  dsimp only
  rw [List.head?_cons, Option.any_some, hcond, hpOpts]
  rfl

theorem parseNext_word {w : Bytes} (hss : reader.ss = w ++ rest) (hw : Word w)
    (hplain : reader.pOpts = false
      ∨ ∀ c ss, w = 45 :: c :: ss → c ≠ 45 ∧ isAlpha c = false)
    (hends : Ends rest)
    : reader.parseNext = .ok { reader with
        ss := rest
        args := reader.args ++ [{ val := w, spc := reader.spc }] } := by
  have harg := parseArg_word hss hw hends
  cases w with
  | nil => exact absurd rfl hw.ne_nil
  | cons c w =>
    have hcond : ¬ (c = 45 && (w ++ rest).head?.any (fun c => c == 45 || isAlpha c)
        && reader.pOpts) = true := by
      intro hopt
      simp only [Bool.and_eq_true, decide_eq_true_eq] at hopt
      obtain ⟨⟨hdash, hnext⟩, hpOpts⟩ := hopt
      have hplain := hplain.resolve_left (by simp [hpOpts])
      cases w with
      | nil =>
        rw [List.nil_append] at hnext
        cases hrest : rest.head? with
        | none => simp [hrest] at hnext
        | some c' =>
          have halpha := hends.stops_alpha c' hrest
          have hspace := hends c' hrest
          have hne : c' ≠ 45 := by
            rintro rfl
            exact absurd hspace (by decide)
          simp [hrest, halpha, hne] at hnext
      | cons c' w =>
        obtain ⟨hne, halpha⟩ := hplain c' w (by rw [hdash])
        simp [hne, halpha] at hnext
    unfold parseNext
    rw [hss, List.cons_append]
    dsimp only
    rw [if_neg hcond, harg]
    rfl

theorem parseNext_dashes (hss : reader.ss = [45, 45] ++ rest) (hpOpts : reader.pOpts = true)
    (hends : Ends rest) : reader.parseNext = .ok { reader with ss := rest, pOpts := false } := by
  have hstops : rest.head?.all isSpace = true := by
    rw [Option.all_eq_true]
    exact hends
  rw [parseNext_opt hss (.inl rfl) hpOpts, parseOpt, hss]
  exact if_pos hstops

theorem Word.ends_append {w : Bytes} (hw : Word w) (hstop : Stops isAlpha w)
    : Stops isAlpha (w ++ rest) := by
  cases w with
  | nil => exact absurd rfl hw.ne_nil
  | cons c w => exact hstop

theorem stops_gap {gap w : Bytes} (hgap : ∀ c ∈ gap, isSpace c = true)
    (hstop : gap = [] → Stops isAlpha w) (hw : Word w) : Stops isAlpha (gap ++ (w ++ rest)) := by
  cases gap with
  | nil => exact hw.ends_append (hstop rfl)
  | cons c gap =>
    have hends : Ends (c :: (gap ++ (w ++ rest))) := ends_cons (hgap c List.mem_cons_self)
    exact hends.stops_alpha

theorem update_iff {α : Type} [DecidableEq α] (f : α → Bool) (a a' : α)
    : Function.update f a true a' = true ↔ f a' = true ∨ a' = a := by
  by_cases heq : a' = a
  . simp [heq]
  . simp [heq]

theorem map_update {o o' : CommandOption} {w : Bytes} {spc : Nat}
    : (Function.update arg o (some { val := w, spc }) o').map (·.val)
        = (if o' = o then some w else none).or ((arg o').map (·.val)) := by
  by_cases heq : o' = o
  . simp [heq]
  . simp [heq]

theorem parseNext_item (h : Table opts) {item : CommandItem} (hvalid : item.Valid opts)
    (hopts : reader.opts = opts.map (seen enc arg)) (hpOpts : reader.pOpts = true)
    (hss : reader.ss = item.text ++ rest) (hends : Ends rest)
    : ∃ reader' enc' arg', reader.parseNext = .ok reader'
        ∧ Takes opts item enc arg rest reader reader' enc' arg' := by
  cases item with
  | word w =>
    obtain ⟨hw, hplain⟩ := hvalid
    refine ⟨_, enc, arg, parseNext_word hss hw (.inr hplain) hends, rfl, rfl, ?_, hopts, ?_, ?_⟩
    . simp [CommandItem.words, CommandItem.text]
    . simp [CommandItem.opts]
    . simp [CommandItem.argOf]
  | long o =>
    obtain ⟨ho, hreq⟩ := hvalid
    have hrun := @parseLongOpt_name opts { reader with ss := 45 :: (o.longName ++ rest) } rest enc
      arg o h ho hreq hopts rfl hends
    have hopt : reader.parseOpt
        = parseLongOpt { reader with ss := 45 :: (o.longName ++ rest) } := by
      rw [parseOpt, hss]
      rfl
    refine ⟨_, _, arg, (parseNext_opt hss (.inl rfl) hpOpts).trans (hopt.trans hrun),
      rfl, rfl, by simp [CommandItem.words], rfl, ?_, by simp [CommandItem.argOf]⟩
    intro o'
    rw [update_iff, CommandItem.opts, List.mem_singleton]
  | longArg o w =>
    obtain ⟨ho, hw⟩ := hvalid
    have hss' : reader.ss = 45 :: 45 :: (o.longName ++ (61 :: (w ++ rest))) := by
      rw [hss, CommandItem.text]
      simp
    have hrun := @parseLongOpt_arg opts
      { reader with ss := 45 :: (o.longName ++ (61 :: (w ++ rest))) } rest enc arg o h ho w hw
      hopts rfl hends
    have hopt : reader.parseOpt
        = parseLongOpt { reader with ss := 45 :: (o.longName ++ (61 :: (w ++ rest))) } := by
      rw [parseOpt, hss']
      rfl
    refine ⟨_, _, _, (parseNext_opt hss' (.inl rfl) hpOpts).trans (hopt.trans hrun),
      rfl, rfl, by simp [CommandItem.words], rfl, ?_, ?_⟩
    . intro o'
      rw [update_iff, CommandItem.opts, List.mem_singleton]
    . intro o'
      exact map_update
  | short o =>
    obtain ⟨ho, hreq⟩ := hvalid
    obtain ⟨is, enc', hrun, his, henc⟩ := @parseOpt_letters opts reader rest enc arg h hopts [o]
      (by simpa using ho) (by simp) hss hends.stops_alpha
    obtain ⟨i, rfl, hi⟩ := List.map_eq_singleton_iff.mp his
    rw [parseShort_flag rfl hi hreq] at hrun
    refine ⟨_, enc', arg, (parseNext_opt hss (.inr (h.alpha o ho)) hpOpts).trans hrun,
      rfl, rfl, by simp [CommandItem.words], rfl, henc, by simp [CommandItem.argOf]⟩
  | shortArg o gap w =>
    obtain ⟨ho, hreq, hw, hgap, hstop⟩ := hvalid
    have hss' : reader.ss = 45 :: ([o].map (·.shortName) ++ (gap ++ (w ++ rest))) := by
      rw [hss, CommandItem.text]
      simp
    obtain ⟨is, enc', hrun, his, henc⟩ := @parseOpt_letters opts reader (gap ++ (w ++ rest)) enc arg
      h hopts [o] (by simpa using ho) (by simp) hss' (stops_gap hgap hstop hw)
    obtain ⟨i, rfl, hi⟩ := List.map_eq_singleton_iff.mp his
    rw [parseShort_arg h rfl hi hreq rfl hgap hw hends] at hrun
    refine ⟨_, enc', _, (parseNext_opt hss' (.inr (h.alpha o ho)) hpOpts).trans hrun,
      rfl, rfl, by simp [CommandItem.words], rfl, henc, ?_⟩
    intro o'
    exact map_update
  | group os =>
    obtain ⟨hlen, hos⟩ := hvalid
    obtain ⟨is, enc', hrun, his, henc⟩ := @parseOpt_letters opts reader rest enc arg h hopts os
      (fun o ho => (hos o ho).1) (by rintro rfl; simp at hlen) hss hends.stops_alpha
    rw [parseShort_group rfl his hlen (fun o ho => (hos o ho).2)] at hrun
    cases os with
    | nil => simp at hlen
    | cons o os =>
      have halpha := h.alpha o (hos o List.mem_cons_self).1
      refine ⟨_, enc', arg, (parseNext_opt hss (.inr halpha) hpOpts).trans hrun,
        rfl, rfl, by simp [CommandItem.words], rfl, henc, by simp [CommandItem.argOf]⟩

end Next

end Items

section Commands

/--
The whitespace between two parts of a command, which may be missing at its end.
-/
def Gap (gap rest : Bytes) : Prop :=
  (∀ c ∈ gap, isSpace c = true) ∧ (rest ≠ [] → gap ≠ [])

/--
The words behind the end of options, which may start with a dash.
-/
inductive RendersWords : List Bytes → Bytes → Prop where
  | nil : RendersWords [] []
  | cons {w : Bytes} {ws : List Bytes} {gap rest : Bytes} (hw : Word w) (hgap : Gap gap rest)
      (hrest : RendersWords ws rest) : RendersWords (w :: ws) (w ++ (gap ++ rest))

/--
The commands that the grammar describes: items, and then possibly `--` and words.
-/
inductive Renders (opts : List CommandOption) : List CommandItem → List Bytes → Bytes → Prop where
  | nil : Renders opts [] [] []
  | dashes {ws : List Bytes} {gap rest : Bytes} (hgap : Gap gap rest)
      (hrest : RendersWords ws rest) : Renders opts [] ws ([45, 45] ++ (gap ++ rest))
  | cons {item : CommandItem} {items : List CommandItem} {ws : List Bytes} {gap rest : Bytes}
      (hvalid : item.Valid opts) (hgap : Gap gap rest) (hrest : Renders opts items ws rest)
      : Renders opts (item :: items) ws (item.text ++ (gap ++ rest))

/--
The argument of the last occurrence that carries one
-/
def lastArg (o : CommandOption) (items : List CommandItem) : Option Bytes :=
  (items.filterMap (·.argOf o)).getLast?

variable {opts : List CommandOption} {reader : CommandReader} {items : List CommandItem}
variable {ws : List Bytes} {w rest gap line lead : Bytes}
variable {enc : CommandOption → Bool} {arg : CommandOption → Option Argument}

theorem lastArg_cons (o : CommandOption) (item : CommandItem) (items : List CommandItem)
    : lastArg o (item :: items) = (lastArg o items).or (item.argOf o) := by
  unfold lastArg
  cases harg : item.argOf o with
  | none => rw [List.filterMap_cons_none harg, Option.or_none]
  | some w =>
    rw [List.filterMap_cons_some harg]
    cases hlast : (items.filterMap (·.argOf o)).getLast? with
    | none =>
      rw [List.getLast?_eq_none_iff] at hlast
      rw [hlast]
      rfl
    | some w' =>
      rw [List.getLast?_cons, hlast]
      rfl

theorem Gap.ends (h : Gap gap rest) : Ends (gap ++ rest) := by
  obtain ⟨hspace, hne⟩ := h
  cases gap with
  | nil =>
    have hnil : rest = [] := by
      by_contra hrest
      exact hne hrest rfl
    rw [hnil]
    simp [Ends]
  | cons c gap => exact ends_cons (hspace c List.mem_cons_self)

theorem RendersWords.stops (h : RendersWords ws line) : Stops isSpace line := by
  cases h with
  | nil => simp [Stops]
  | cons hw hgap hrest => exact hw.stops

theorem stops_dash (rest : Bytes) : Stops isSpace (45 :: rest) :=
  stops_cons rfl

theorem CommandItem.stops_text {item : CommandItem} (h : item.Valid opts)
    : Stops isSpace (item.text ++ rest) := by
  cases item with
  | word w => exact h.1.stops
  | long o => exact stops_dash _
  | longArg o w => exact stops_dash _
  | short o => exact stops_dash _
  | shortArg o gap w => exact stops_dash _
  | group os => exact stops_dash _

theorem CommandItem.text_ne_nil {item : CommandItem} (h : item.Valid opts) : item.text ≠ [] := by
  cases item with
  | word w => exact h.1.ne_nil
  | long o => simp [text]
  | longArg o w => simp [text]
  | short o => simp [text]
  | shortArg o gap w => simp [text]
  | group os => simp [text]

theorem Renders.stops (h : Renders opts items ws line) : Stops isSpace line := by
  cases h with
  | nil => simp [Stops]
  | dashes hgap hrest => exact stops_dash _
  | cons hvalid hgap hrest => exact CommandItem.stops_text hvalid

theorem parseLoop_succ {reader' : CommandReader} {fuel : Nat} (hss : reader.ss = lead ++ line)
    (hlead : ∀ c ∈ lead, isSpace c = true) (hstop : Stops isSpace line) (hne : line ≠ [])
    (h : parseNext { reader with ss := line, spc := lead.length } = .ok reader')
    : parseLoop (fuel + 1) reader = parseLoop fuel reader' := by
  rw [parseLoop, skipWhitespace_append hss hlead hstop]
  dsimp only
  rw [if_neg hne, h]
  rfl

theorem parseLoop_nil {fuel : Nat} (hss : reader.ss = lead)
    (hlead : ∀ c ∈ lead, isSpace c = true)
    : parseLoop (fuel + 1) reader = .ok { reader with ss := [], spc := lead.length } := by
  have hskip := @skipWhitespace_append reader [] lead (by rw [hss, List.append_nil]) hlead
    (by simp [Stops])
  rw [parseLoop, hskip]
  exact if_pos rfl

theorem parseLoop_words (h : RendersWords ws line) {fuel : Nat} (hfuel : line.length < fuel)
    (hlead : ∀ c ∈ lead, isSpace c = true) (hss : reader.ss = lead ++ line)
    (hpOpts : reader.pOpts = false)
    : ∃ reader', parseLoop fuel reader = .ok reader'
        ∧ reader'.opts = reader.opts
        ∧ reader'.args.map (·.val) = reader.args.map (·.val) ++ ws := by
  induction h generalizing fuel lead reader with
  | nil =>
    cases fuel with
    | zero => simp at hfuel
    | succ fuel => exact ⟨_, parseLoop_nil (by rw [hss, List.append_nil]) hlead, rfl, by simp⟩
  | @cons w ws gap rest hw hgap hrest ih =>
    cases fuel with
    | zero => simp at hfuel
    | succ fuel =>
      have hpos := List.length_pos_of_ne_nil hw.ne_nil
      rw [List.length_append, List.length_append] at hfuel
      have hnext := @parseNext_word
        { reader with ss := w ++ (gap ++ rest), spc := lead.length } _ w rfl hw (.inl hpOpts)
        hgap.ends
      obtain ⟨reader', hrun, hopts, hargs⟩ := @ih
        { reader with
          ss := gap ++ rest
          spc := lead.length
          args := reader.args ++ [{ val := w, spc := lead.length }] } gap fuel (by omega) hgap.1
        rfl hpOpts
      refine ⟨reader', ?_, hopts, ?_⟩
      . rw [parseLoop_succ hss hlead hw.stops (by simp [hw.ne_nil]) hnext]
        exact hrun
      . rw [hargs]
        simp

theorem parseLoop_renders (htable : Table opts) (h : Renders opts items ws line) {fuel : Nat}
    (hfuel : line.length < fuel) (hlead : ∀ c ∈ lead, isSpace c = true)
    (hss : reader.ss = lead ++ line) (hpOpts : reader.pOpts = true)
    (hopts : reader.opts = opts.map (seen enc arg))
    : ∃ reader' enc' arg', parseLoop fuel reader = .ok reader'
        ∧ reader'.opts = opts.map (seen enc' arg')
        ∧ reader'.args.map (·.val) = reader.args.map (·.val) ++ items.flatMap (·.words) ++ ws
        ∧ (∀ o, enc' o = true ↔ enc o = true ∨ ∃ item ∈ items, o ∈ item.opts)
        ∧ ∀ o, (arg' o).map (·.val) = (lastArg o items).or ((arg o).map (·.val)) := by
  induction h generalizing fuel lead reader enc arg with
  | nil =>
    cases fuel with
    | zero => simp at hfuel
    | succ fuel =>
      exact ⟨_, enc, arg, parseLoop_nil (by rw [hss, List.append_nil]) hlead, hopts, by simp,
        by simp, by simp [lastArg]⟩
  | @dashes ws gap rest hgap hrest =>
    cases fuel with
    | zero => simp at hfuel
    | succ fuel =>
      simp only [List.length_append, List.length_cons, List.length_nil] at hfuel
      have hnext := @parseNext_dashes
        { reader with ss := [45, 45] ++ (gap ++ rest), spc := lead.length } _ rfl hpOpts hgap.ends
      obtain ⟨reader', hrun, hopts', hargs⟩ := @parseLoop_words
        { reader with ss := gap ++ rest, spc := lead.length, pOpts := false } ws rest gap hrest
        fuel (by omega) hgap.1 rfl rfl
      refine ⟨reader', enc, arg, ?_, hopts'.trans hopts, by rw [hargs]; simp, by simp,
        by simp [lastArg]⟩
      rw [parseLoop_succ hss hlead (stops_dash _) (by simp) hnext]
      exact hrun
  | @cons item items ws gap rest hvalid hgap hrest ih =>
    cases fuel with
    | zero => simp at hfuel
    | succ fuel =>
      have hpos := List.length_pos_of_ne_nil (CommandItem.text_ne_nil hvalid)
      rw [List.length_append, List.length_append] at hfuel
      obtain ⟨reader₁, enc₁, arg₁, hnext, htakes⟩ := @parseNext_item opts
        { reader with ss := item.text ++ (gap ++ rest), spc := lead.length } _ enc arg htable item
        hvalid hopts hpOpts rfl hgap.ends
      obtain ⟨reader₂, enc₂, arg₂, hrun, hopts₂, hargs, henc, harg⟩ := @ih reader₁ gap enc₁ arg₁
        fuel (by omega) hgap.1 htakes.ss_eq (htakes.pOpts_eq.trans hpOpts) htakes.opts_eq
      refine ⟨reader₂, enc₂, arg₂, ?_, hopts₂, ?_, ?_, ?_⟩
      . rw [parseLoop_succ hss hlead (CommandItem.stops_text hvalid)
          (by simp [CommandItem.text_ne_nil hvalid]) hnext]
        exact hrun
      . rw [hargs, htakes.args_eq]
        simp
      . intro o
        rw [henc, htakes.enc_iff]
        simp [or_assoc]
      . intro o
        rw [harg, htakes.arg_eq, lastArg_cons, Option.or_assoc]

theorem parse_of_parseLoop
    (h : parseLoop (line.length + 1) { new with opts, ss := line } = .ok reader)
    : parse { new with opts } line = .ok { reader with argi := 0 } := by
  rw [parse]
  dsimp only [new] at h ⊢
  rw [h]
  rfl

theorem opt_seen (htable : Table opts) (hopts : reader.opts = opts.map (seen enc arg))
    {o : CommandOption} (ho : o ∈ opts) : reader.opt o.longName = some (seen enc arg o) := by
  have hcomp : (fun o' : CommandOption => o'.longName == o.longName) ∘ seen enc arg
      = fun o' => o'.longName == o.longName := rfl
  rw [opt, hopts, List.find?_map, hcomp]
  cases hfind : opts.find? (fun o' => o'.longName == o.longName) with
  | none => exact absurd (List.find?_eq_none.mp hfind o ho) (by simp)
  | some o' =>
    have hname := List.find?_some hfind
    have hmem := List.mem_of_find?_eq_some hfind
    rw [List.inj_on_of_nodup_map htable.nodup_longName hmem ho (by simpa using hname),
      Option.map_some]

theorem map_seen_fresh (htable : Table opts)
    : opts = opts.map (seen (fun _ => false) (fun _ => none)) := by
  symm
  calc
    opts.map (seen (fun _ => false) (fun _ => none)) = opts.map id := by
      apply List.map_congr_left
      intro o ho
      obtain ⟨harg, henc⟩ := htable.fresh o ho
      rw [seen, ← harg, ← henc]
      rfl
    _ = opts := List.map_id opts

/--
A command of the grammar is parsed: the positional arguments are its words, and an option is found if
it occurs, with the argument of the last occurrence that carries one.
-/
theorem parse_renders (opts : List CommandOption) (items : List CommandItem) (ws : List Bytes)
    (line lead : Bytes) (htable : Table opts) (h : Renders opts items ws line)
    (hlead : ∀ c ∈ lead, isSpace c = true)
    : ∃ reader, parse { new with opts } (lead ++ line) = .ok reader
        ∧ reader.args.map (·.val) = items.flatMap (·.words) ++ ws
        ∧ ∀ o ∈ opts, ∃ opt, reader.opt o.longName = some opt
          ∧ (opt.enc = true ↔ ∃ item ∈ items, o ∈ item.opts)
          ∧ opt.arg.map (·.val) = lastArg o items := by
  obtain ⟨reader, enc, arg, hrun, hopts, hargs, henc, harg⟩ := @parseLoop_renders opts
    { new with opts, ss := lead ++ line } items ws line lead _ _ htable h
    ((lead ++ line).length + 1) (by rw [List.length_append]; omega) hlead rfl rfl
    (map_seen_fresh htable)
  refine ⟨{ reader with argi := 0 }, parse_of_parseLoop hrun, hargs, ?_⟩
  intro o ho
  refine ⟨seen enc arg o, opt_seen htable hopts ho, ?_, ?_⟩
  . simpa [seen] using henc o
  . simpa [seen] using harg o

/--
`-h` takes no argument and `-n` does.
-/
def helpOpts : List CommandOption :=
  ((new.addOpt 104 [104, 101] false false).addOpt 110 [110, 117] true false).opts

theorem table_helpOpts : Table helpOpts := by
  have hhelp : Table (new.addOpt 104 [104, 101] false false).opts :=
    table_new.addOpt rfl (by simp) (by simp [isSpace]) (by decide) (by decide) false false
  exact hhelp.addOpt rfl (by simp) (by simp [isSpace]) (by decide) (by decide) true false

def helpItems : List CommandItem :=
  [.shortArg helpOpts[1] [32] [53], .word [45, 49]]

/--
`-n 5 -1 -- -h`
-/
def helpLine : Bytes :=
  [45, 110, 32, 53, 32, 45, 49, 32, 45, 45, 32, 45, 104]

theorem renders_help : Renders helpOpts helpItems [[45, 104]] helpLine := by
  have hfive : (CommandItem.shortArg helpOpts[1] [32] [53]).Valid helpOpts :=
    ⟨by simp [helpOpts], rfl, ⟨by simp, by simp [isSpace], by simp⟩, by simp [isSpace], by simp⟩
  have hone : (CommandItem.word [45, 49]).Valid helpOpts := by
    refine ⟨⟨by simp, by simp [isSpace], by simp⟩, ?_⟩
    intro c rest heq
    simp only [List.cons.injEq, true_and] at heq
    rw [← heq.1]
    decide
  have hgap {rest : Bytes} : Gap [32] rest :=
    ⟨by simp [isSpace], by simp⟩
  have hwords : RendersWords [[45, 104]] [45, 104] :=
    @RendersWords.cons [45, 104] [] [] [] ⟨by simp, by simp [isSpace], by simp⟩ (by simp [Gap])
      .nil
  have hdashes : Renders helpOpts [] [[45, 104]] [45, 45, 32, 45, 104] :=
    @Renders.dashes helpOpts _ [32] _ hgap hwords
  exact @Renders.cons helpOpts _ _ _ [32] _ hfive hgap
    (@Renders.cons helpOpts _ _ _ [32] _ hone hgap hdashes)

theorem parse_renders_help
    : ∃ reader, parse { new with opts := helpOpts } ([] ++ helpLine) = .ok reader
        ∧ reader.args.map (·.val) = helpItems.flatMap (·.words) ++ [[45, 104]]
        ∧ ∀ o ∈ helpOpts, ∃ opt, reader.opt o.longName = some opt
          ∧ (opt.enc = true ↔ ∃ item ∈ helpItems, o ∈ item.opts)
          ∧ opt.arg.map (·.val) = lastArg o helpItems :=
  parse_renders helpOpts helpItems [[45, 104]] helpLine [] table_helpOpts renders_help (by simp)

end Commands

end CommandReader

end HCraft
