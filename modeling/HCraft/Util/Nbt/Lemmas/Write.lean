import HCraft.Util.Nbt.Impl

/-!
This module contains what the writer leaves in its buffer.
-/

namespace HCraft

open ByteBuffer

namespace NbtTag

def header (id : UInt8) (name : Bytes) : Bytes :=
  id :: (Bin.writeShortBe name.length ++ name)

def putAll (arr : List UInt32) : Bytes :=
  arr.flatMap (fun v => Bin.writeIntBe v.toNat)

mutual

def payload : NbtTag UInt8 → Bytes
  | byte val => [val]
  | short val => Bin.writeShortBe val.toNat
  | int val => Bin.writeIntBe val.toNat
  | long val => Bin.writeLongBe val.toNat
  | float val => Bin.writeIntBe val.toNat
  | double val => Bin.writeLongBe val.toNat
  | byteArray data => Bin.writeIntBe data.length ++ data
  | string val => Bin.writeShortBe val.length ++ val
  | list eltype vals => eltype :: (Bin.writeIntBe vals.length ++ payloadVals vals)
  | compound tags => payloadTags tags ++ [0]
  | intArray data => Bin.writeIntBe data.length ++ putAll data

def payloadVals : List (NbtTag UInt8) → Bytes
  | [] => []
  | t :: ts => t.payload ++ payloadVals ts

def payloadTags : List (Bytes × NbtTag UInt8) → Bytes
  | [] => []
  | (name, t) :: ts => header t.id name ++ t.payload ++ payloadTags ts

end

def ValidName (name : Bytes) : Prop :=
  name.length ≤ 32767 ∧ 0 ∉ name

mutual

def Valid : NbtTag UInt8 → Prop
  | string val => val.length ≤ 65535 ∧ 0 ∉ val
  | list eltype vals => (∀ t ∈ vals, t.id = eltype) ∧ ValidVals vals
  | compound tags => (tags.map Prod.fst).Nodup ∧ ValidTags tags
  | _ => True

def ValidVals : List (NbtTag UInt8) → Prop
  | [] => True
  | t :: ts => t.Valid ∧ ValidVals ts

def ValidTags : List (Bytes × NbtTag UInt8) → Prop
  | [] => True
  | (name, t) :: ts => ValidName name ∧ t.Valid ∧ ValidTags ts

end

end NbtTag

theorem cstr_eq_self {s : Bytes} (h : 0 ∉ s) : cstr s = s := by
  unfold cstr
  induction s with
  | nil => rfl
  | cons b s ih =>
    rw [List.mem_cons, not_or] at h
    rw [List.takeWhile_cons, ih h.right]
    simp [Ne.symm h.left]

namespace NbtWriter

open NbtTag

/--
What precedes the payload of a tag.
-/
def start (type : NbtFrameType) (id : UInt8) (name : Option Bytes) : Bytes :=
  match type, name with
  | .compound, some name => header id name
  | _, _ => []

/--
Only the tags of a compound have names.
-/
def ValidStart (type : NbtFrameType) (name : Option Bytes) : Prop :=
  match type, name with
  | .list, _ => True
  | .compound, some name => ValidName name
  | .compound, none => False

/--
The calls have put `bs` behind what was there, and the frames are `frms` now.
-/
def Wrote (w : NbtWriter) (bs : Bytes) (frms : List NbtFrame) (r : Except Fault NbtWriter) : Prop :=
  ∃ w', r = .ok w' ∧ w'.buf.AtEnd ∧ w'.buf.data = w.buf.data ++ bs ∧ w'.frms = frms

theorem Wrote.bind {w : NbtWriter} {bs bs' : Bytes} {frms frms' : List NbtFrame}
    {r : Except Fault NbtWriter} {f : NbtWriter → Except Fault NbtWriter} (h : Wrote w bs frms r)
    (hf : ∀ w', w'.buf.AtEnd → w'.buf.data = w.buf.data ++ bs → w'.frms = frms
      → Wrote w' bs' frms' (f w'))
    : Wrote w (bs ++ bs') frms' (r >>= f) := by
  obtain ⟨w', hr, hend, hdata, hfrms⟩ := h
  obtain ⟨w'', hr', hend', hdata', hfrms'⟩ := hf w' hend hdata hfrms
  refine ⟨w'', ?_, hend', ?_, hfrms'⟩
  . rw [hr]
    exact hr'
  . rw [hdata', hdata, List.append_assoc]

theorem emitTagStart_spec {buf : ByteBuffer} (h : buf.AtEnd) {id : UInt8} {name : Bytes}
    (hname : ValidName name) (hn : buf.data.length + (header id name).length ≤ 2 ^ 28)
    : ∃ buf', emitTagStart buf id (some name) = .ok buf' ∧ buf'.AtEnd
        ∧ buf'.data = buf.data ++ header id name := by
  have hmod : name.length % 2 ^ 16 = name.length := by
    have := hname.left
    omega
  simp only [header, List.length_cons, List.length_append, Bin.length_writeShortBe] at hn
  obtain ⟨buf₁, h₁, hend₁, hdata₁⟩ := @AtEnd.putBytes _ h [id]
    (by rw [List.length_singleton]; omega)
  have hlen₁ := congrArg List.length hdata₁
  rw [List.length_append, List.length_singleton] at hlen₁
  obtain ⟨buf₂, h₂, hend₂, hdata₂⟩ := @AtEnd.putBytes _ hend₁ (Bin.writeShortBe name.length)
    (by rw [Bin.length_writeShortBe]; omega)
  have hlen₂ := congrArg List.length hdata₂
  rw [List.length_append, Bin.length_writeShortBe] at hlen₂
  obtain ⟨buf₃, h₃, hend₃, hdata₃⟩ := @AtEnd.putBytes _ hend₂ name (by omega)
  refine ⟨buf₃, ?_, hend₃, ?_⟩
  . unfold emitTagStart
    dsimp only
    rw [cstr_eq_self hname.right, hmod, ByteBuffer.putByte, h₁]
    dsimp only [bind, Except.bind]
    rw [putShortBe, h₂]
    exact h₃
  . rw [hdata₃, hdata₂, hdata₁]
    simp [header]

section Tag

variable {w : NbtWriter} {frm : NbtFrame} {frms : List NbtFrame} {name : Option Bytes}
variable {id : UInt8}

theorem startTag_spec (hfrms : w.frms = frm :: frms) (hend : w.buf.AtEnd)
    (hname : ValidStart frm.type name)
    (hn : w.buf.data.length + (start frm.type id name).length ≤ 2 ^ 28)
    : Wrote w (start frm.type id name) ({ frm with len := frm.len + 1 } :: frms)
        (w.startTag id name) := by
  unfold startTag
  rw [hfrms]
  dsimp only
  cases htype : frm.type with
  | list =>
    rw [if_neg (by simp)]
    refine ⟨_, rfl, hend, ?_, ?_⟩
    . simp [start]
    . rfl
  | compound =>
    rw [htype] at hname hn
    cases name with
    | none => exact hname.elim
    | some name =>
      obtain ⟨buf', heq, hend', hdata⟩ := emitTagStart_spec hend hname hn
      rw [if_pos (by simp), heq]
      exact ⟨_, rfl, hend', hdata, rfl⟩

variable (hfrms : w.frms = frm :: frms) (hend : w.buf.AtEnd) (hname : ValidStart frm.type name)

include hfrms hend hname

theorem put_spec {arr : Bytes}
    (hn : w.buf.data.length + (start frm.type id name ++ arr).length ≤ 2 ^ 28)
    : Wrote w (start frm.type id name ++ arr) ({ frm with len := frm.len + 1 } :: frms)
        (do
          let w ← w.startTag id name
          let buf ← w.buf.putBytes arr
          .ok { w with buf }) := by
  rw [List.length_append] at hn
  apply Wrote.bind (startTag_spec hfrms hend hname (by omega))
  intro w' hend' hdata' hfrms'
  have hlen := congrArg List.length hdata'
  rw [List.length_append] at hlen
  obtain ⟨buf, heq, hbuf, hdata⟩ := @AtEnd.putBytes _ hend' arr (by omega)
  rw [heq]
  exact ⟨_, rfl, hbuf, hdata, hfrms'⟩

theorem put_put_spec {arr : Bytes} {f : ByteBuffer → Except Fault ByteBuffer} {bs : Bytes}
    (hf : ∀ buf : ByteBuffer, buf.AtEnd → buf.data.length + bs.length ≤ 2 ^ 28
      → ∃ buf', f buf = .ok buf' ∧ buf'.AtEnd ∧ buf'.data = buf.data ++ bs)
    (hn : w.buf.data.length + (start frm.type id name ++ (arr ++ bs)).length ≤ 2 ^ 28)
    : Wrote w (start frm.type id name ++ (arr ++ bs)) ({ frm with len := frm.len + 1 } :: frms)
        (do
          let w ← w.startTag id name
          let buf ← w.buf.putBytes arr
          let buf ← f buf
          .ok { w with buf }) := by
  rw [List.length_append, List.length_append] at hn
  apply Wrote.bind (startTag_spec hfrms hend hname (by omega))
  intro w' hend' hdata' hfrms'
  have hlen := congrArg List.length hdata'
  rw [List.length_append] at hlen
  obtain ⟨buf, heq, hbuf, hdata⟩ := @AtEnd.putBytes _ hend' arr (by omega)
  have hlen' := congrArg List.length hdata
  rw [List.length_append] at hlen'
  obtain ⟨buf', heq', hbuf', hdata'⟩ := hf buf hbuf (by omega)
  rw [heq]
  dsimp only [Bind.bind, Except.bind]
  rw [heq']
  refine ⟨_, rfl, hbuf', ?_, hfrms'⟩
  dsimp only
  rw [hdata', hdata, List.append_assoc]

end Tag

theorem putInts_spec {buf : ByteBuffer} (h : buf.AtEnd) {arr : List UInt32}
    (hn : buf.data.length + (putAll arr).length ≤ 2 ^ 28)
    : ∃ buf', putInts buf arr = .ok buf' ∧ buf'.AtEnd ∧ buf'.data = buf.data ++ putAll arr := by
  induction arr generalizing buf with
  | nil => exact ⟨buf, rfl, h, by simp [putAll]⟩
  | cons v arr ih =>
    simp only [putAll, List.flatMap_cons, List.length_append, Bin.length_writeIntBe] at hn
    obtain ⟨buf₁, h₁, hend₁, hdata₁⟩ := @AtEnd.putBytes _ h (Bin.writeIntBe v.toNat)
      (by rw [Bin.length_writeIntBe]; omega)
    have hlen₁ := congrArg List.length hdata₁
    rw [List.length_append, Bin.length_writeIntBe] at hlen₁
    obtain ⟨buf₂, h₂, hend₂, hdata₂⟩ := ih hend₁ (by unfold putAll; omega)
    refine ⟨buf₂, ?_, hend₂, ?_⟩
    . rw [putInts, putIntBe, h₁]
      exact h₂
    . rw [hdata₂, hdata₁]
      simp [putAll]

section Frames

variable {w : NbtWriter} {frm : NbtFrame} {frms : List NbtFrame} {name : Option Bytes}
variable (hfrms : w.frms = frm :: frms) (hend : w.buf.AtEnd) (hname : ValidStart frm.type name)

include hfrms hend hname

theorem startList_spec {eltype : UInt8}
    (hn : w.buf.data.length + (start frm.type 9 name).length + 5 ≤ 2 ^ 28)
    : Wrote w (start frm.type 9 name ++ (eltype :: Bin.writeIntBe 0))
        (⟨.list, w.buf.data.length + (start frm.type 9 name).length + 1, 0⟩
          :: { frm with len := frm.len + 1 } :: frms)
        (w.startList eltype name) := by
  unfold startList
  apply Wrote.bind (startTag_spec hfrms hend hname (by omega))
  intro w' hend' hdata' hfrms'
  have hlen := congrArg List.length hdata'
  rw [List.length_append] at hlen
  obtain ⟨buf₁, h₁, hend₁, hdata₁⟩ := @AtEnd.putBytes _ hend' [eltype]
    (by rw [List.length_singleton]; omega)
  have hlen₁ := congrArg List.length hdata₁
  rw [List.length_append, List.length_singleton] at hlen₁
  obtain ⟨buf₂, h₂, hend₂, hdata₂⟩ := @AtEnd.putBytes _ hend₁ (Bin.writeIntBe 0)
    (by rw [Bin.length_writeIntBe]; omega)
  rw [ByteBuffer.putByte, h₁]
  dsimp only [Bind.bind, Except.bind]
  rw [putIntBe, h₂]
  refine ⟨_, rfl, hend₂, ?_, ?_⟩
  . dsimp only
    rw [hdata₂, hdata₁, List.append_assoc]
    rfl
  . dsimp only
    rw [hfrms', hend₁.left, hlen₁, hlen]

theorem startCompound_spec
    (hn : w.buf.data.length + (start frm.type 10 name).length ≤ 2 ^ 28)
    : Wrote w (start frm.type 10 name)
        (⟨.compound, 0, 0⟩ :: { frm with len := frm.len + 1 } :: frms)
        (w.startCompound name) := by
  obtain ⟨w', heq, hend', hdata, hfrms'⟩ := startTag_spec hfrms hend hname hn
  unfold startCompound
  rw [heq]
  refine ⟨_, rfl, hend', hdata, ?_⟩
  rw [hfrms']

end Frames

theorem endList_spec {w : NbtWriter} {frms : List NbtFrame} {pre post : Bytes} {len : Nat}
    (hfrms : w.frms = ⟨.list, pre.length, len⟩ :: frms) (hend : w.buf.AtEnd)
    (hdata : w.buf.data = pre ++ (Bin.writeIntBe 0 ++ post))
    (hn : w.buf.data.length ≤ 2 ^ 28)
    : ∃ w', w.endList = .ok w' ∧ w'.buf.AtEnd
        ∧ w'.buf.data = pre ++ (Bin.writeIntBe len ++ post) ∧ w'.frms = frms := by
  have hlen := congrArg List.length hdata
  rw [List.length_append, List.length_append, Bin.length_writeIntBe] at hlen
  have hfits : (w.buf.seek pre.length).Fits := by
    refine ⟨?_, hend.right⟩
    dsimp only [seek]
    omega
  obtain ⟨buf, heq, hbuf, hpatch, _⟩ := @putBytes_spec _ hfits (Bin.writeIntBe len)
    (by dsimp only [seek]; rw [Bin.length_writeIntBe]; omega)
  have hbytes : buf.data = pre ++ (Bin.writeIntBe len ++ post) := by
    rw [hpatch]
    dsimp only [seek]
    rw [hdata, Slice.patch_eq (by rw [List.length_append]; omega), List.take_left,
      ← List.append_assoc pre, Bin.length_writeIntBe,
      List.drop_left' (by rw [List.length_append, Bin.length_writeIntBe]), List.append_assoc]
  have hlen' := congrArg List.length hbytes
  rw [List.length_append, List.length_append, Bin.length_writeIntBe] at hlen'
  unfold endList
  rw [hfrms]
  dsimp only
  rw [putIntBe, heq]
  refine ⟨_, rfl, ⟨?_, hbuf.right⟩, hbytes, rfl⟩
  dsimp only [seek]
  rw [hend.left]
  omega

theorem endCompound_spec {w : NbtWriter} {frm : NbtFrame} {frms : List NbtFrame}
    (hfrms : w.frms = frm :: frms) (hend : w.buf.AtEnd) (hn : w.buf.data.length ≤ 2 ^ 28)
    : Wrote w [0] frms w.endCompound := by
  obtain ⟨buf, heq, hbuf, hdata⟩ := @AtEnd.putBytes _ hend [0]
    (by rw [List.length_singleton]; omega)
  unfold endCompound
  rw [hfrms]
  dsimp only
  rw [ByteBuffer.putByte, heq]
  exact ⟨_, rfl, hbuf, hdata, rfl⟩

end NbtWriter

namespace NbtTag

open NbtWriter

mutual

theorem write_spec (t : NbtTag UInt8) (ht : t.Valid) {name : Option Bytes} {w : NbtWriter}
    {frm : NbtFrame} {frms : List NbtFrame} (hfrms : w.frms = frm :: frms) (hend : w.buf.AtEnd)
    (hname : ValidStart frm.type name)
    (hn : w.buf.data.length + (start frm.type t.id name ++ t.payload).length ≤ 2 ^ 28)
    : Wrote w (start frm.type t.id name ++ t.payload) ({ frm with len := frm.len + 1 } :: frms)
        (t.write name w) :=
  match t with
  | byte val => put_spec hfrms hend hname hn
  | short val => put_spec hfrms hend hname hn
  | int val => put_spec hfrms hend hname hn
  | long val => put_spec hfrms hend hname hn
  | float val => put_spec hfrms hend hname hn
  | double val => put_spec hfrms hend hname hn
  | byteArray data =>
    put_put_spec hfrms hend hname (fun buf h hn => AtEnd.putBytes h (by omega)) hn
  | string val => by
    have hmod : val.length % 2 ^ 16 = val.length := by
      have := ht.left
      omega
    unfold write NbtWriter.putString
    rw [hmod]
    exact put_put_spec hfrms hend hname (fun buf h hn => AtEnd.putBytes h (by omega)) hn
  | intArray data => put_put_spec hfrms hend hname (fun buf h hn => putInts_spec h hn) hn
  | list eltype vals => by
    obtain ⟨_, hvals⟩ := ht
    simp only [payload, List.length_append, List.length_cons, Bin.length_writeIntBe, id] at hn
    unfold write
    obtain ⟨w₁, h₁, hend₁, hdata₁, hfrms₁⟩ :=
      @startList_spec _ _ _ name hfrms hend hname eltype (by omega)
    have hlen₁ := congrArg List.length hdata₁
    simp only [List.length_append, List.length_cons, Bin.length_writeIntBe] at hlen₁
    obtain ⟨w₂, h₂, hend₂, hdata₂, hfrms₂⟩ := writeVals_spec vals hvals hfrms₁ hend₁ rfl (by omega)
    have hpre : w₂.buf.data = (w.buf.data ++ (start frm.type 9 name ++ [eltype]))
        ++ (Bin.writeIntBe 0 ++ payloadVals vals) := by
      rw [hdata₂, hdata₁]
      simp
    have hlen₂ := congrArg List.length hdata₂
    rw [List.length_append] at hlen₂
    have hlist : w₂.frms
        = ⟨.list, (w.buf.data ++ (start frm.type 9 name ++ [eltype])).length, vals.length⟩
          :: { frm with len := frm.len + 1 } :: frms := by
      rw [hfrms₂, List.length_append, List.length_append, List.length_singleton, ← Nat.add_assoc,
        Nat.zero_add]
    obtain ⟨w₃, h₃, hend₃, hdata₃, hfrms₃⟩ := endList_spec hlist hend₂ hpre (by omega)
    refine ⟨w₃, ?_, hend₃, ?_, hfrms₃⟩
    . rw [h₁]
      dsimp only [Bind.bind, Except.bind]
      rw [h₂]
      exact h₃
    . rw [hdata₃]
      simp [payload, id]
  | compound tags => by
    obtain ⟨_, htags⟩ := ht
    simp only [payload, List.length_append, List.length_singleton, id] at hn
    unfold write
    obtain ⟨w₁, h₁, hend₁, hdata₁, hfrms₁⟩ :=
      @startCompound_spec _ _ _ name hfrms hend hname (by omega)
    have hlen₁ := congrArg List.length hdata₁
    rw [List.length_append] at hlen₁
    obtain ⟨w₂, h₂, hend₂, hdata₂, hfrms₂⟩ := writeTags_spec tags htags hfrms₁ hend₁ rfl (by omega)
    have hlen₂ := congrArg List.length hdata₂
    rw [List.length_append] at hlen₂
    obtain ⟨w₃, h₃, hend₃, hdata₃, hfrms₃⟩ := endCompound_spec hfrms₂ hend₂ (by omega)
    refine ⟨w₃, ?_, hend₃, ?_, hfrms₃⟩
    . rw [h₁]
      dsimp only [Bind.bind, Except.bind]
      rw [h₂]
      exact h₃
    . rw [hdata₃, hdata₂, hdata₁]
      simp [payload, id]

theorem writeVals_spec (ts : List (NbtTag UInt8)) (hts : ValidVals ts) {w : NbtWriter}
    {frm : NbtFrame} {frms : List NbtFrame} (hfrms : w.frms = frm :: frms) (hend : w.buf.AtEnd)
    (htype : frm.type = .list) (hn : w.buf.data.length + (payloadVals ts).length ≤ 2 ^ 28)
    : Wrote w (payloadVals ts) ({ frm with len := frm.len + ts.length } :: frms)
        (writeVals ts w) :=
  match ts with
  | [] => ⟨w, rfl, hend, by simp [payloadVals], by rw [hfrms]; rfl⟩
  | t :: ts => by
    obtain ⟨ht, hts⟩ := hts
    have hstart : start frm.type t.id none = [] := by
      rw [htype]
      rfl
    rw [payloadVals, List.length_append] at hn
    have hwrite := @write_spec t ht none w frm frms hfrms hend (by rw [htype]; trivial)
      (by rw [hstart, List.nil_append]; omega)
    rw [hstart, List.nil_append] at hwrite
    apply Wrote.bind hwrite
    intro w' hend' hdata' hfrms'
    have hlen := congrArg List.length hdata'
    rw [List.length_append] at hlen
    have hrest := writeVals_spec ts hts hfrms' hend' htype (by omega)
    have hcount : frm.len + (t :: ts).length = frm.len + 1 + ts.length := by
      rw [List.length_cons]
      omega
    rw [hcount]
    exact hrest

theorem writeTags_spec (ts : List (Bytes × NbtTag UInt8)) (hts : ValidTags ts) {w : NbtWriter}
    {frm : NbtFrame} {frms : List NbtFrame} (hfrms : w.frms = frm :: frms) (hend : w.buf.AtEnd)
    (htype : frm.type = .compound) (hn : w.buf.data.length + (payloadTags ts).length ≤ 2 ^ 28)
    : Wrote w (payloadTags ts) ({ frm with len := frm.len + ts.length } :: frms)
        (writeTags ts w) :=
  match ts with
  | [] => ⟨w, rfl, hend, by simp [payloadTags], by rw [hfrms]; rfl⟩
  | (name, t) :: ts => by
    obtain ⟨hname, ht, hts⟩ := hts
    have hstart : start frm.type t.id (some name) = header t.id name := by
      rw [htype]
      rfl
    rw [payloadTags, List.length_append] at hn
    have hwrite := @write_spec t ht (some name) w frm frms hfrms hend (by rw [htype]; exact hname)
      (by rw [hstart]; omega)
    rw [hstart] at hwrite
    apply Wrote.bind hwrite
    intro w' hend' hdata' hfrms'
    have hlen := congrArg List.length hdata'
    rw [List.length_append] at hlen
    have hrest := writeTags_spec ts hts hfrms' hend' htype (by omega)
    have hcount : frm.len + ((name, t) :: ts).length = frm.len + 1 + ts.length := by
      rw [List.length_cons]
      omega
    rw [hcount]
    exact hrest

end

end NbtTag

end HCraft
