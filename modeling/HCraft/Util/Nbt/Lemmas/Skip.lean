import HCraft.Util.Nbt.Lemmas.Cursor

/-!
This module contains the reader without the values it returns: where it stops, and how.
-/

namespace HCraft

namespace NbtReader

inductive Part where
  | payload (id : UInt8)
  | vals (id : UInt8) (count : Nat)
  | tags
  | tag

/--
The sizes of the numbers.
-/
def width (id : UInt8) : Option Nat :=
  if id = 1 then some 1
  else if id = 2 then some 2
  else if id = 3 then some 4
  else if id = 4 then some 8
  else if id = 5 then some 4
  else if id = 6 then some 8
  else none

def skip : Part → Nat → Bytes → Except NbtError NbtCursor
  | .payload id, fuel, bs => (readPayload fuel id (cur bs)).map Prod.snd
  | .vals id count, fuel, bs => (readVals fuel id count (cur bs)).map Prod.snd
  | .tags, fuel, bs => (readTags fuel [] (cur bs)).map Prod.snd
  | .tag, fuel, bs =>
    match readTag fuel (cur bs) with
    | .error e => .error e
    | .ok (none, _) => .error unexpectedEof
    | .ok (some _, s) => .ok s

variable {id : UInt8} {fuel : Nat} {bs rest : Bytes}

theorem map_snd_map {α β ε σ : Type} {f : α × σ → β × σ} (h : ∀ r, (f r).2 = r.2)
    (r : Except ε (α × σ))
    : (r.map f).map Prod.snd = r.map Prod.snd := by
  cases r with
  | error e => rfl
  | ok v =>
    rw [Except.map, Except.map, Except.map, h]

theorem exists_of_map_snd {α ε σ : Type} {r : Except ε (α × σ)} {s : σ}
    (h : r.map Prod.snd = .ok s) : ∃ v, r = .ok (v, s) := by
  cases r with
  | error e => nomatch h
  | ok v =>
    rcases v with ⟨v, s'⟩
    refine ⟨v, ?_⟩
    rw [← Except.ok.inj h]

theorem of_map_snd_error {α ε σ : Type} {r : Except ε (α × σ)} {e : ε}
    (h : r.map Prod.snd = .error e) : r = .error e := by
  cases r with
  | error e' => rw [Except.error.inj h]
  | ok v => nomatch h

theorem readFixed_cur {α : Type} {n : Nat} {read : Bytes → Option α}
    (h : ∀ {bs} rest, bs.length = n → ∃ v, read (bs ++ rest) = some v) (data : Bytes)
    : (readFixed n read (cur data)).map Prod.snd
        =
      if data.length < n then .error unexpectedEof else .ok (cur (data.drop n)) := by
  split
  . next hlt =>
    rw [readFixed_of_lt hlt]
    rfl
  . next hle =>
    obtain ⟨bs, rest, hdata, hbs⟩ := @exists_append_of_le n data (by omega)
    obtain ⟨v, hv⟩ := h rest hbs
    subst hdata
    rw [readFixed_append hbs hv, List.drop_left' hbs]
    rfl

theorem readPayloadByte_cur (data : Bytes)
    : (readPayloadByte (cur data)).map Prod.snd
        =
      if data.length < 1 then .error unexpectedEof else .ok (cur (data.drop 1)) := by
  cases data with
  | nil => rfl
  | cons b data =>
    rw [readPayloadByte_cons, List.length_cons, if_neg (by omega)]
    rfl

theorem skip_fixed {n : Nat} (h : width id = some n) (bs : Bytes)
    : skip (.payload id) (fuel + 1) bs
        =
      if bs.length < n then .error unexpectedEof else .ok (cur (bs.drop n)) := by
  have hshort := @readFixed_cur _ 2 Bin.readShortBe
    (fun rest h => ⟨_, Bin.readShortBe_append h rest⟩) bs
  have hint := @readFixed_cur _ 4 Bin.readIntBe
    (fun rest h => ⟨_, Bin.readIntBe_append h rest⟩) bs
  have hlong := @readFixed_cur _ 8 Bin.readLongBe
    (fun rest h => ⟨_, Bin.readLongBe_append h rest⟩) bs
  unfold width at h
  rw [skip, readPayload]
  split at h
  . next hid =>
    rw [if_pos hid, ← Option.some.inj h]
    refine Eq.trans (map_snd_map ?_ _) (readPayloadByte_cur bs)
    exact fun _ => rfl
  rw [if_neg ‹_›]
  split at h
  . next hid =>
    rw [if_pos hid, ← Option.some.inj h]
    refine Eq.trans (map_snd_map ?_ _) hshort
    exact fun _ => rfl
  rw [if_neg ‹_›]
  split at h
  . next hid =>
    rw [if_pos hid, ← Option.some.inj h]
    refine Eq.trans (map_snd_map ?_ _) hint
    exact fun _ => rfl
  rw [if_neg ‹_›]
  split at h
  . next hid =>
    rw [if_pos hid, ← Option.some.inj h]
    refine Eq.trans (map_snd_map ?_ _) hlong
    exact fun _ => rfl
  rw [if_neg ‹_›]
  split at h
  . next hid =>
    rw [if_pos hid, ← Option.some.inj h]
    refine Eq.trans (map_snd_map ?_ _) hint
    exact fun _ => rfl
  rw [if_neg ‹_›]
  split at h
  . next hid =>
    rw [if_pos hid, ← Option.some.inj h]
    refine Eq.trans (map_snd_map ?_ _) hlong
    exact fun _ => rfl
  . nomatch h

theorem skip_byteArray (bs : Bytes)
    : skip (.payload 7) (fuel + 1) bs = (readPayloadByteArray (cur bs)).map Prod.snd := by
  rw [skip, readPayload]
  apply map_snd_map
  exact fun _ => rfl

theorem skip_string (bs : Bytes)
    : skip (.payload 8) (fuel + 1) bs = (readPayloadString (cur bs)).map Prod.snd := by
  rw [skip, readPayload]
  apply map_snd_map
  exact fun _ => rfl

theorem skip_intArray (bs : Bytes)
    : skip (.payload 11) (fuel + 1) bs = (readPayloadIntArray (cur bs)).map Prod.snd := by
  rw [skip, readPayload]
  apply map_snd_map
  exact fun _ => rfl

theorem skip_compound (bs : Bytes)
    : skip (.payload 10) (fuel + 1) bs = skip .tags fuel bs := by
  rw [skip, skip, readPayload]
  cases readTags fuel [] (cur bs) with
  | error e => rfl
  | ok r => rfl

theorem skip_invalid (h : width id = none) (h7 : id ≠ 7) (h8 : id ≠ 8) (h9 : id ≠ 9)
    (h10 : id ≠ 10) (h11 : id ≠ 11) (bs : Bytes)
    : skip (.payload id) (fuel + 1) bs = .error (.readError "invalid tag id") := by
  unfold width at h
  rw [skip, readPayload]
  iterate 6
    split at h
    . nomatch h
    rw [if_neg ‹_›]
  rw [if_neg h7, if_neg h8, if_neg h9, if_neg h10, if_neg h11]
  rfl

theorem readPayload_list (s : NbtCursor)
    : readPayload (fuel + 1) 9 s = readPayloadList (readVals fuel) s := by
  rw [readPayload]
  rfl

theorem skip_list_of_lt (h : bs.length < 5)
    : skip (.payload 9) (fuel + 1) bs = .error unexpectedEof := by
  have hlt : (cur bs).avail < 5 := by
    dsimp only [cur]
    omega
  rw [skip, readPayload_list, readPayloadList, if_pos hlt]
  rfl

theorem skip_list {count : Bytes} {n : Int} (h : count.length = 4)
    (hn : Bin.int32 (BigEndian.decode count) = n)
    : skip (.payload 9) (fuel + 1) (id :: (count ++ bs)) = skip (.vals id n.toNat) fuel bs := by
  rw [skip, skip, readPayload_list]
  have hlist : readPayloadList (readVals fuel) (cur (id :: (count ++ bs)))
      = (readVals fuel id n.toNat (cur bs)).map (fun r => (.list () r.1, r.2)) := by
    unfold readPayloadList
    rw [if_neg (by simp only [cur, List.length_cons, List.length_append]; omega)]
    rw [readPayloadByte_cons]
    dsimp only [bind, Except.bind]
    rw [readFixed_int h hn]
    dsimp only
    cases readVals fuel id n.toNat (cur bs) with
    | error e => rfl
    | ok r => rfl
  rw [hlist]
  apply map_snd_map
  exact fun _ => rfl

section Vals

variable {count : Nat}

theorem skip_vals_of_error {e : NbtError} (h : skip (.payload id) fuel bs = .error e)
    : skip (.vals id (count + 1)) (fuel + 1) bs = .error e := by
  rw [skip] at h
  rw [skip, readVals, of_map_snd_error h]
  rfl

theorem skip_vals_of_ok (h : skip (.payload id) fuel bs = .ok (cur rest))
    : skip (.vals id (count + 1)) (fuel + 1) bs = skip (.vals id count) fuel rest := by
  rw [skip] at h
  obtain ⟨t, ht⟩ := exists_of_map_snd h
  rw [skip, skip, readVals, ht]
  dsimp only [bind, Except.bind]
  cases readVals fuel id count (cur rest) with
  | error e => rfl
  | ok r => rfl

end Vals

theorem readTags_map_snd (tags tags' : List (Bytes × NbtTag Unit)) (s : NbtCursor)
    : (readTags fuel tags s).map Prod.snd = (readTags fuel tags' s).map Prod.snd := by
  induction fuel generalizing tags tags' s with
  | zero => rfl
  | succ fuel ih =>
    unfold readTags
    split
    . rfl
    split
    . rfl
    split
    . cases advance s 1 with
      | error e => rfl
      | ok s => rfl
    cases readTag fuel s with
    | error e => rfl
    | ok r =>
      rcases r with ⟨t, s⟩
      cases t with
      | none => rfl
      | some t => apply ih

theorem skip_tags_nil : skip .tags (fuel + 1) [] = .error unexpectedEof := rfl

theorem readTags_end (tags : List (Bytes × NbtTag Unit))
    : readTags (fuel + 1) tags (cur (0 :: rest)) = .ok (tags, cur rest) := by
  have hadvance : advance (cur (0 :: rest)) 1 = .ok (cur rest) := @advance_cur [0] 1 rfl rest
  rw [readTags]
  rw [if_neg (by simp only [cur, List.length_cons]; omega)]
  rw [show (cur (0 :: rest)).data.head? = some 0 from rfl]
  dsimp only
  rw [if_pos rfl, hadvance]
  rfl

theorem skip_tags_end : skip .tags (fuel + 1) (0 :: rest) = .ok (cur rest) := by
  rw [skip, readTags_end]
  rfl

section Tags

variable {b : UInt8}

theorem readTags_cons (h : b ≠ 0) (tags : List (Bytes × NbtTag Unit))
    : readTags (fuel + 1) tags (cur (b :: bs))
        =
      match readTag fuel (cur (b :: bs)) with
      | .error e => .error e
      | .ok (none, _) => .error unexpectedEof
      | .ok (some (name, t), s) => readTags fuel (setTag name t tags) s := by
  rw [readTags]
  rw [if_neg (by simp only [cur, List.length_cons]; omega)]
  rw [show (cur (b :: bs)).data.head? = some b from rfl]
  dsimp only
  rw [if_neg h]
  cases readTag fuel (cur (b :: bs)) with
  | error e => rfl
  | ok r =>
    rcases r with ⟨t, s⟩
    cases t with
    | none => rfl
    | some t => rfl

theorem skip_tags_of_error {e : NbtError} (hb : b ≠ 0)
    (h : skip .tag fuel (b :: bs) = .error e)
    : skip .tags (fuel + 1) (b :: bs) = .error e := by
  rw [skip] at h
  rw [skip, readTags_cons hb]
  split at h
  . next heq =>
    rw [heq, Except.error.inj h]
    rfl
  . next heq =>
    rw [heq, ← Except.error.inj h]
    rfl
  . nomatch h

theorem skip_tags_of_ok (hb : b ≠ 0) (h : skip .tag fuel (b :: bs) = .ok (cur rest))
    : skip .tags (fuel + 1) (b :: bs) = skip .tags fuel rest := by
  rw [skip] at h
  rw [skip, skip, readTags_cons hb]
  split at h
  . nomatch h
  . nomatch h
  . next heq =>
    rw [heq, Except.ok.inj h]
    apply readTags_map_snd

end Tags

theorem skip_tag_nil : skip .tag (fuel + 1) [] = .error unexpectedEof := rfl

theorem readTag_cons
    : readTag (fuel + 1) (cur (id :: bs))
        =
      match readName (cur bs) with
      | .error e => .error e
      | .ok (name, s) => (readPayload fuel id s).map (fun (t, s) => (some (name, t), s)) := by
  rw [readTag]
  rw [if_neg (by simp only [cur, List.length_cons]; omega), readPayloadByte_cons]
  dsimp only [bind, Except.bind]
  cases readName (cur bs) with
  | error e => rfl
  | ok r =>
    rcases r with ⟨name, s⟩
    dsimp only
    cases readPayload fuel id s with
    | error e => rfl
    | ok r => rfl

theorem skip_tag_of_error {e : NbtError} (h : readName (cur bs) = .error e)
    : skip .tag (fuel + 1) (id :: bs) = .error e := by
  rw [skip, readTag_cons, h]

theorem skip_tag_of_ok {name : Bytes} (h : readName (cur bs) = .ok (name, cur rest))
    : skip .tag (fuel + 1) (id :: bs) = skip (.payload id) fuel rest := by
  rw [skip, skip, readTag_cons, h]
  dsimp only
  cases readPayload fuel id (cur rest) with
  | error e => rfl
  | ok r => rfl

theorem readRaw_eq (data : Bytes)
    : readRaw data
        =
      match readTag (2 * data.length + 1) (cur data) with
      | .error e => .error e
      | .ok (some (name, .compound tags), _) => .ok (name, tags)
      | .ok _ => .error (.readError "expected NBT compound tag") := by
  unfold readRaw cur
  dsimp only [bind, Except.bind]
  generalize readTag (2 * data.length + 1) ⟨data, data.length⟩ = r
  match r with
  | .error _ => rfl
  | .ok (none, _) => rfl
  | .ok (some (_, t), _) =>
    cases t with
    | _ => rfl

end NbtReader

end HCraft
