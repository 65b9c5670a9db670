import HCraft.Util.Json.Lemmas.Integers

/-!
This module contains how the configuration of the server is loaded, and when that fails as it should.
-/

namespace HCraft

/--
`static_cast<int>`, whose result is any number if the value does not fit.
-/
class CastDouble (ν : Type) where
  toInt : ν → Int

class LawfulCastDouble (ν : Type) [Double ν] [IntDouble ν] [CastDouble ν] : Prop where
  toInt_ofInt : ∀ n : Int, -2 ^ 31 ≤ n → n < 2 ^ 31 → CastDouble.toInt (IntDouble.ofInt n : ν) = n

namespace JValue

variable {ν : Type}

def asNumber [Double ν] : JValue ν → ν
  | .number val => val
  | _ => Double.ofNat 0

def asString : JValue ν → Bytes
  | .string val => val
  | _ => []

/--
`none` is a null pointer.
-/
def asObject : JValue ν → Option (List (Bytes × JValue ν))
  | .object vals => some vals
  | _ => none

def asBool : JValue ν → Bool
  | .bool val => val
  | _ => false

end JValue

def JObject.get {ν : Type} (vals : List (Bytes × JValue ν)) (str : String) : Option (JValue ν) :=
  vals.lookup str.toUTF8.data.toList

namespace Server

structure Configuration where
  motd : Bytes
  maxPlayers : Int
  online : Bool
  port : Int
  encryption : Bool
  compressThreshold : Int
  compressLevel : Int
  mainw : Bytes
  viewDist : Int

def defaultConfig : Configuration where
  motd := "A new hCraft server has been born!".toUTF8.data.toList
  maxPlayers := 12
  online := true
  port := 25565
  encryption := true
  compressThreshold := 256
  compressLevel := 6
  mainw := "Main".toUTF8.data.toList
  viewDist := 3

inductive ConfigError where
  | serverStartError (what : String)
  | fault (f : Fault)
  deriving DecidableEq

section Load

variable {ν : Type} [Double ν] [CastDouble ν]

/--
`obj->get (key)->as_object ()`
-/
def getAsObject (obj : List (Bytes × JValue ν)) (key : String)
    : Except ConfigError (Option (List (Bytes × JValue ν))) :=
  match JObject.get obj key with
  | none => .error (.fault .nullPointer)
  | some val => .ok val.asObject

/--
A setting that is missing keeps its value.
-/
def cfgLoadSetting {α : Type} (obj : List (Bytes × JValue ν)) (key : String) (as : JValue ν → α)
    (cfg : α) : α :=
  match JObject.get obj key with
  | none => cfg
  | some val => as val

def asInt (val : JValue ν) : Int :=
  CastDouble.toInt val.asNumber

def cfgLoadGeneral (obj : Option (List (Bytes × JValue ν))) (cfg : Configuration)
    : Except ConfigError Configuration :=
  match obj with
  | none => .error (.serverStartError "config: `general' not found")
  | some obj => .ok { cfg with
      motd := cfgLoadSetting obj "motd" JValue.asString cfg.motd
      maxPlayers := cfgLoadSetting obj "max-players" asInt cfg.maxPlayers
      online := cfgLoadSetting obj "online" JValue.asBool cfg.online }

def cfgLoadNetCompression (obj : Option (List (Bytes × JValue ν))) (cfg : Configuration)
    : Except ConfigError Configuration :=
  match obj with
  | none => .error (.serverStartError "config: `net.compression' not found")
  | some obj => .ok { cfg with
      compressThreshold := cfgLoadSetting obj "threshold" asInt cfg.compressThreshold
      compressLevel := cfgLoadSetting obj "level" asInt cfg.compressLevel }

def cfgLoadNet (obj : Option (List (Bytes × JValue ν))) (cfg : Configuration)
    : Except ConfigError Configuration :=
  match obj with
  | none => .error (.serverStartError "config: `net' not found")
  | some obj => do
    let cfg := { cfg with
      port := cfgLoadSetting obj "port" asInt cfg.port
      encryption := cfgLoadSetting obj "encryption" JValue.asBool cfg.encryption }
    let compression ← getAsObject obj "compression"
    cfgLoadNetCompression compression cfg

def cfgLoadWorlds (obj : Option (List (Bytes × JValue ν))) (cfg : Configuration)
    : Except ConfigError Configuration :=
  match obj with
  | none => .error (.serverStartError "config: `worlds' not found")
  | some obj => .ok { cfg with
      mainw := cfgLoadSetting obj "main-world" JValue.asString cfg.mainw
      viewDist := cfgLoadSetting obj "view-distance" asInt cfg.viewDist }

def cfgLoad (root : List (Bytes × JValue ν)) (cfg : Configuration)
    : Except ConfigError Configuration := do
  let general ← getAsObject root "general"
  let cfg ← cfgLoadGeneral general cfg
  let net ← getAsObject root "net"
  let cfg ← cfgLoadNet net cfg
  let worlds ← getAsObject root "worlds"
  cfgLoadWorlds worlds cfg

end Load

section Settings

variable {ν : Type}

/--
`given` is what stands for the setting in the file, if anything does, and `IsGiven` what values of the
expected type mean.
-/
structure Setting {α : Type} (given : Option (JValue ν)) (IsGiven : JValue ν → α → Prop)
    (default cfg : α) : Prop where
  absent : given = none → cfg = default
  present : ∀ val a, given = some val → IsGiven val a → cfg = a

def IsString (val : JValue ν) (str : Bytes) : Prop :=
  val = .string str

def IsBool (val : JValue ν) (b : Bool) : Prop :=
  val = .bool b

/--
A number that is an `int`, or is cut to one.
-/
def IsInt [Double ν] [IntDouble ν] [CastDouble ν] (val : JValue ν) (n : Int) : Prop :=
  (-2 ^ 31 ≤ n ∧ n < 2 ^ 31 ∧ val = .number (IntDouble.ofInt n))
    ∨ ∃ x, val = .number x ∧ n = CastDouble.toInt x

/--
The sections are there, and are objects.
-/
structure Sections (root general net compression worlds : List (Bytes × JValue ν)) : Prop where
  general_eq : JObject.get root "general" = some (.object general)
  net_eq : JObject.get root "net" = some (.object net)
  compression_eq : JObject.get net "compression" = some (.object compression)
  worlds_eq : JObject.get root "worlds" = some (.object worlds)

structure Loaded [Double ν] [IntDouble ν] [CastDouble ν]
    (general net compression worlds : List (Bytes × JValue ν)) (cfg : Configuration) : Prop where
  motd : Setting (JObject.get general "motd") IsString defaultConfig.motd cfg.motd
  maxPlayers : Setting (JObject.get general "max-players") IsInt defaultConfig.maxPlayers
    cfg.maxPlayers
  online : Setting (JObject.get general "online") IsBool defaultConfig.online cfg.online
  port : Setting (JObject.get net "port") IsInt defaultConfig.port cfg.port
  encryption : Setting (JObject.get net "encryption") IsBool defaultConfig.encryption cfg.encryption
  threshold : Setting (JObject.get compression "threshold") IsInt defaultConfig.compressThreshold
    cfg.compressThreshold
  level : Setting (JObject.get compression "level") IsInt defaultConfig.compressLevel
    cfg.compressLevel
  mainw : Setting (JObject.get worlds "main-world") IsString defaultConfig.mainw cfg.mainw
  viewDist : Setting (JObject.get worlds "view-distance") IsInt defaultConfig.viewDist cfg.viewDist

/--
It returns with the settings of the file, or throws since a section is missing or is no object.
-/
def LoadsCleanly [Double ν] [IntDouble ν] [CastDouble ν] (root : List (Bytes × JValue ν)) : Prop :=
  (∃ general net compression worlds cfg, cfgLoad root defaultConfig = .ok cfg
      ∧ Sections root general net compression worlds
      ∧ Loaded general net compression worlds cfg)
    ∨ (∃ what, cfgLoad root defaultConfig = .error (.serverStartError what))
      ∧ ¬ ∃ general net compression worlds, Sections root general net compression worlds

/--
The first section that is no object is there nevertheless.
-/
def FirstPresent (root : List (Bytes × JValue ν)) : Prop :=
  JObject.get root "general" ≠ none
    ∧ ∀ general, JObject.get root "general" = some (.object general) →
      JObject.get root "net" ≠ none
        ∧ ∀ net, JObject.get root "net" = some (.object net) →
          JObject.get net "compression" ≠ none
            ∧ ∀ compression, JObject.get net "compression" = some (.object compression) →
              JObject.get root "worlds" ≠ none

end Settings

section Lemmas

variable {ν : Type} {root obj : List (Bytes × JValue ν)} {key : String}

theorem getAsObject_cases (obj : List (Bytes × JValue ν)) (key : String)
    : (JObject.get obj key = none ∧ getAsObject obj key = .error (.fault .nullPointer))
        ∨ (∃ vals, JObject.get obj key = some (.object vals) ∧ getAsObject obj key = .ok (some vals))
        ∨ ((∃ val, JObject.get obj key = some val)
          ∧ (∀ vals, JObject.get obj key ≠ some (.object vals)) ∧ getAsObject obj key = .ok none) := by
  unfold getAsObject
  cases hget : JObject.get obj key with
  | none => exact .inl ⟨rfl, rfl⟩
  | some val =>
    right
    cases val with
    | object vals => exact .inl ⟨vals, rfl, rfl⟩
    | _ => exact .inr ⟨⟨_, rfl⟩, by simp, rfl⟩

theorem setting_cfgLoadSetting {α : Type} {as : JValue ν → α} {IsGiven : JValue ν → α → Prop}
    (h : ∀ val a, IsGiven val a → as val = a) (default : α)
    : Setting (JObject.get obj key) IsGiven default (cfgLoadSetting obj key as default) where
  absent hget := by
    unfold cfgLoadSetting
    rw [hget]
  present val a hget hgiven := by
    unfold cfgLoadSetting
    rw [hget]
    exact h val a hgiven

theorem asString_of_isString (val : JValue ν) (str : Bytes) (h : IsString val str)
    : val.asString = str := by
  rw [h]
  rfl

theorem asBool_of_isBool (val : JValue ν) (b : Bool) (h : IsBool val b) : val.asBool = b := by
  rw [h]
  rfl

variable [Double ν] [IntDouble ν] [CastDouble ν]

theorem asInt_of_isInt [LawfulCastDouble ν] (val : JValue ν) (n : Int) (h : IsInt val n)
    : asInt val = n := by
  rcases h with ⟨hlo, hhi, rfl⟩ | ⟨x, rfl, rfl⟩
  . exact LawfulCastDouble.toInt_ofInt n hlo hhi
  . rfl

omit [IntDouble ν] in
theorem cfgLoad_of_sections {general net compression worlds : List (Bytes × JValue ν)}
    (h : Sections root general net compression worlds)
    : cfgLoad root defaultConfig = .ok {
        motd := cfgLoadSetting general "motd" JValue.asString defaultConfig.motd
        maxPlayers := cfgLoadSetting general "max-players" asInt defaultConfig.maxPlayers
        online := cfgLoadSetting general "online" JValue.asBool defaultConfig.online
        port := cfgLoadSetting net "port" asInt defaultConfig.port
        encryption := cfgLoadSetting net "encryption" JValue.asBool defaultConfig.encryption
        compressThreshold := cfgLoadSetting compression "threshold" asInt
          defaultConfig.compressThreshold
        compressLevel := cfgLoadSetting compression "level" asInt defaultConfig.compressLevel
        mainw := cfgLoadSetting worlds "main-world" JValue.asString defaultConfig.mainw
        viewDist := cfgLoadSetting worlds "view-distance" asInt defaultConfig.viewDist } := by
  simp only [cfgLoad, cfgLoadNet, getAsObject, h.general_eq, h.net_eq, h.compression_eq, h.worlds_eq,
    bind, Except.bind, JValue.asObject, cfgLoadGeneral, cfgLoadNetCompression, cfgLoadWorlds]

theorem loaded_cfgLoad [LawfulCastDouble ν] {general net compression worlds : List (Bytes × JValue ν)}
    (h : Sections root general net compression worlds)
    : ∃ cfg, cfgLoad root defaultConfig = .ok cfg ∧ Loaded general net compression worlds cfg := by
  refine ⟨_, cfgLoad_of_sections h, ?_⟩
  exact {
    motd := setting_cfgLoadSetting asString_of_isString _
    maxPlayers := setting_cfgLoadSetting asInt_of_isInt _
    online := setting_cfgLoadSetting asBool_of_isBool _
    port := setting_cfgLoadSetting asInt_of_isInt _
    encryption := setting_cfgLoadSetting asBool_of_isBool _
    threshold := setting_cfgLoadSetting asInt_of_isInt _
    level := setting_cfgLoadSetting asInt_of_isInt _
    mainw := setting_cfgLoadSetting asString_of_isString _
    viewDist := setting_cfgLoadSetting asInt_of_isInt _
  }

theorem loadsCleanly_of_error {what : String}
    (h : cfgLoad root defaultConfig = .error (.serverStartError what)) : LoadsCleanly root := by
  refine .inr ⟨⟨what, h⟩, ?_⟩
  rintro ⟨general, net, compression, worlds, hsections⟩
  rw [cfgLoad_of_sections hsections] at h
  cases h

theorem not_loadsCleanly_of_fault {f : Fault}
    (h : cfgLoad root defaultConfig = .error (.fault f)) : ¬ LoadsCleanly root := by
  rintro (⟨_, _, _, _, cfg, hok, _⟩ | ⟨⟨what, herror⟩, _⟩)
  . rw [h] at hok
    cases hok
  . rw [h] at herror
    cases herror

theorem loadsCleanly_iff_of_bind {k : Option (List (Bytes × JValue ν)) → Except ConfigError Configuration}
    {q : List (Bytes × JValue ν) → Prop} {what : String}
    (hload : cfgLoad root defaultConfig = getAsObject obj key >>= k)
    (hnone : k none = .error (.serverStartError what))
    (hsome : ∀ vals, JObject.get obj key = some (.object vals) →
      cfgLoad root defaultConfig = k (some vals) → (LoadsCleanly root ↔ q vals))
    : LoadsCleanly root
        ↔
      JObject.get obj key ≠ none ∧ ∀ vals, JObject.get obj key = some (.object vals) → q vals := by
  rcases getAsObject_cases obj key with
    ⟨hget, hobj⟩ | ⟨vals, hget, hobj⟩ | ⟨⟨val, hget⟩, hnot, hobj⟩
  . -- the pointer to the section is null
    rw [hobj] at hload
    exact iff_of_false (not_loadsCleanly_of_fault hload) (fun h => h.1 hget)
  . rw [hobj] at hload
    rw [hsome vals hget hload]
    constructor
    . intro hq
      refine ⟨by simp [hget], ?_⟩
      intro vals' hget'
      rw [hget] at hget'
      injection hget' with hget'
      injection hget' with hvals
      rw [← hvals]
      exact hq
    . intro h
      exact h.2 vals hget
  . have herror : cfgLoad root defaultConfig = .error (.serverStartError what) := by
      rw [hload, hobj]
      exact hnone
    exact iff_of_true (loadsCleanly_of_error herror)
      ⟨by simp [hget], fun vals h => absurd h (hnot vals)⟩

/--
It never uses a null pointer if and only if the first section that is no object is there.
-/
theorem loadsCleanly_iff [LawfulCastDouble ν] (root : List (Bytes × JValue ν))
    : LoadsCleanly root ↔ FirstPresent root := by
  apply loadsCleanly_iff_of_bind rfl rfl
  intro general hgeneral hload
  apply loadsCleanly_iff_of_bind hload rfl
  intro net hnet hload
  apply loadsCleanly_iff_of_bind (hload.trans (bind_assoc _ _ _)) rfl
  intro compression hcompression hload
  rw [loadsCleanly_iff_of_bind (q := fun _ => True) hload rfl]
  . exact and_iff_left (fun _ _ => trivial)
  . intro worlds hworlds _
    have hsections : Sections root general net compression worlds :=
      ⟨hgeneral, hnet, hcompression, hworlds⟩
    obtain ⟨cfg, hcfg, hloaded⟩ := loaded_cfgLoad hsections
    exact iff_true_intro (.inl ⟨general, net, compression, worlds, cfg, hcfg, hsections, hloaded⟩)

instance : CastDouble Int where
  toInt n := n

instance : LawfulCastDouble Int where
  toInt_ofInt _ _ _ := rfl

/--
A file whose section `net` is a number, and an empty one.
-/
theorem loadsCleanly_iff_sample
    : (LoadsCleanly [("general".toUTF8.data.toList, .object []),
          ("net".toUTF8.data.toList, .number (1 : Int))]
        ↔
      FirstPresent [("general".toUTF8.data.toList, .object []),
        ("net".toUTF8.data.toList, .number (1 : Int))])
      ∧ (LoadsCleanly ([] : List (Bytes × JValue Int)) ↔ FirstPresent ([] : List (Bytes × JValue Int))) :=
  ⟨loadsCleanly_iff _, loadsCleanly_iff _⟩

theorem not_loadsCleanly_nil : ¬ LoadsCleanly ([] : List (Bytes × JValue Int)) :=
  not_loadsCleanly_of_fault (f := .nullPointer) rfl

end Lemmas

end Server

end HCraft
