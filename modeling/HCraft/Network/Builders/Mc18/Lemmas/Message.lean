import HCraft.Network.Builders.Mc18.Packets
import HCraft.Util.Json.Lemmas.RoundTrip
import Mathlib.Data.List.TakeWhile

/-!
This module contains the JSON texts in the packets that show a message.
-/

namespace HCraft

open JsonWriter JsonReader

namespace Mc18PacketBuilder

variable {ν : Type} [Double ν] (order : MemberOrder ν)

/--
The members of a message, in the order in which they are set.
-/
def messageMembers (msg : Bytes) : List (Bytes × JValue ν) :=
  [(textKey, .string msg)]

def disconnectMembers (msg : Bytes) : List (Bytes × JValue ν) :=
  [(textKey, .string msg), (colorKey, .string red)]

/--
What is written of the members.
-/
def messageText (vals : List (Bytes × JValue ν)) : Bytes :=
  match write .packed 0 (.object (order.visit vals)) with
  | .ok js => js
  | .error _ => []

/--
Strings without NUL
-/
def Texts (vals : List (Bytes × JValue ν)) : Prop :=
  (vals.map Prod.fst).Nodup ∧ ∀ member ∈ vals, 0 ∉ member.1 ∧ ∃ str, member.2 = .string str ∧ 0 ∉ str

/--
`js` is an object with these members, in some order, and nothing behind it.
-/
def Says (vals : List (Bytes × JValue ν)) (js : Bytes) : Prop :=
  ∃ vals' ls, readObject (.new js) = .ok (vals', ls) ∧ ls.strm = [] ∧ vals'.Perm vals

theorem zero_notMem_keys : (0 : UInt8) ∉ textKey ∧ (0 : UInt8) ∉ colorKey ∧ (0 : UInt8) ∉ red := by
  decide

omit [Double ν] in
theorem texts_messageMembers {msg : Bytes} (h : 0 ∉ msg)
    : Texts (messageMembers msg : List (Bytes × JValue ν)) := by
  refine ⟨by simp [messageMembers], ?_⟩
  intro member hmember
  simp only [messageMembers, List.mem_singleton] at hmember
  subst hmember
  exact ⟨zero_notMem_keys.1, msg, rfl, h⟩

omit [Double ν] in
theorem texts_disconnectMembers {msg : Bytes} (h : 0 ∉ msg)
    : Texts (disconnectMembers msg : List (Bytes × JValue ν)) := by
  refine ⟨by simp [disconnectMembers, textKey, colorKey], ?_⟩
  intro member hmember
  simp only [disconnectMembers, List.mem_cons, List.not_mem_nil, or_false] at hmember
  rcases hmember with rfl | rfl
  . exact ⟨zero_notMem_keys.1, msg, rfl, h⟩
  . exact ⟨zero_notMem_keys.2.1, red, rfl, zero_notMem_keys.2.2⟩

section Write

theorem zero_notMem_encodeStr {str : Bytes} (h : 0 ∉ str) : 0 ∉ encodeStr str := by
  have hescape : ∀ c : UInt8, 0 ∈ escape c → c = 0 := by
    intro c hc
    unfold escape at hc
    repeat' split at hc
    . simp at hc
    . simp at hc
    . simp at hc
    . simp at hc
    . simp at hc
    . simp at hc
    . simp at hc
    . exact (List.mem_singleton.mp hc).symm
  rw [encodeStr, List.cons_append, List.mem_cons, List.mem_append, List.mem_flatMap]
  rintro (h0 | ⟨c, hc, hzero⟩ | h0)
  . simp at h0
  . rw [hescape c hzero] at hc
    exact h hc
  . simp at h0

theorem writeMembers_texts {vals : List (Bytes × JValue ν)} (h : ∀ member ∈ vals, 0 ∉ member.1
      ∧ ∃ str, member.2 = .string str ∧ 0 ∉ str) (count i : Nat)
    : ∃ out, writeMembers .packed 0 count i vals = .ok out ∧ 0 ∉ out := by
  induction vals generalizing i with
  | nil => exact ⟨[], by rw [writeMembers], by simp⟩
  | cons member vals ih =>
    obtain ⟨key, val⟩ := member
    obtain ⟨hkey, str, hval, hstr⟩ := h (key, val) List.mem_cons_self
    obtain ⟨rest, hrest, hzero⟩ := ih (fun member hmember => h member (List.mem_cons_of_mem _ hmember))
      (i + 1)
    dsimp only at hval hkey
    subst hval
    have hkey' := zero_notMem_encodeStr hkey
    have hstr' := zero_notMem_encodeStr hstr
    by_cases hlast : i + 1 = count
    . refine ⟨encodeStr key ++ ([58] ++ (encodeStr str ++ rest)), ?_, ?_⟩
      . rw [writeMembers, hrest]
        simp [memberIndent, fill, write, separator, newline, hlast, JsonFormat.packed, bind,
          Except.bind, pure, Except.pure]
      . simp [hkey', hstr', hzero]
    . refine ⟨encodeStr key ++ ([58] ++ (encodeStr str ++ ([44] ++ rest))), ?_, ?_⟩
      . rw [writeMembers, hrest]
        simp [memberIndent, fill, write, separator, newline, hlast, JsonFormat.packed, bind,
          Except.bind, pure, Except.pure]
      . simp [hkey', hstr', hzero]

variable {vals : List (Bytes × JValue ν)}

theorem write_texts (h : Texts vals)
    : write .packed 0 (.object (order.visit vals)) = .ok (messageText order vals)
        ∧ 0 ∉ messageText order vals := by
  have hperm := order.perm vals
  have hvisit : ∀ member ∈ order.visit vals, 0 ∉ member.1 ∧ ∃ str, member.2 = .string str ∧ 0 ∉ str :=
    fun member hmember => h.2 member (hperm.mem_iff.mp hmember)
  obtain ⟨body, hbody, hzero⟩ := writeMembers_texts hvisit (order.visit vals).length 0
  have hwrite : write .packed 0 (.object (order.visit vals)) = .ok ([123] ++ (body ++ [125])) := by
    rw [write, hbody]
    simp [opening, indentation, fill, newline, JsonFormat.packed, bind, Except.bind, pure,
      Except.pure, Bin.wrap32]
  refine ⟨?_, ?_⟩
  . rw [messageText, hwrite]
  . rw [messageText, hwrite]
    simp [hzero]

theorem cStr_messageText (h : Texts vals) : cStr (messageText order vals) = messageText order vals := by
  have hzero := (write_texts order h).2
  rw [cStr, List.takeWhile_eq_self_iff]
  intro c hc
  rw [decide_eq_true_eq]
  rintro rfl
  exact hzero hc

theorem plain_of_texts (h : Texts vals) : (JValue.object (order.visit vals)).Plain := by
  have hperm := order.perm vals
  refine ⟨(hperm.map Prod.fst).nodup_iff.mpr h.1, ?_⟩
  have hvisit : ∀ member ∈ order.visit vals, ∃ str, member.2 = .string str :=
    fun member hmember => (h.2 member (hperm.mem_iff.mp hmember)).2.imp (fun _ hstr => hstr.1)
  generalize order.visit vals = vals' at hvisit
  induction vals' with
  | nil => trivial
  | cons member vals' ih =>
    obtain ⟨str, hstr⟩ := hvisit member List.mem_cons_self
    refine ⟨?_, ih (fun member hmember => hvisit member (List.mem_cons_of_mem _ hmember))⟩
    rw [hstr]
    trivial

/--
The text of a message says its members.
-/
theorem says_messageText [LawfulDouble ν] (h : Texts vals) : Says vals (messageText order vals) := by
  have hread := (@readObject_write_iff _ _ _ .packed (by constructor <;> decide) _
    (plain_of_texts order h)).mpr (by simp [JsonFormat.packed])
  obtain ⟨out, ls, hwrite, hobject, hend⟩ := hread
  rw [(write_texts order h).1] at hwrite
  injection hwrite with hwrite
  rw [← hwrite] at hobject
  exact ⟨_, ls, hobject, hend, order.perm vals⟩

end Write

end Mc18PacketBuilder

end HCraft
