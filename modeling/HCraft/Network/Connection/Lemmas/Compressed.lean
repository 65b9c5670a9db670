import Mathlib.Data.List.Forall2
import HCraft.Network.Connection.Lemmas.Stage
import HCraft.Network.Transformers.ZlibMc18.Lemmas.TransformIn
import HCraft.Network.Transformers.ZlibMc18.Lemmas.TransformOut

/-!
This module contains what becomes of a compressed stream, however it is cut into reads.
-/

namespace HCraft

open PacketTransformer ZlibMc18Transformer

/--
The number of packets that have arrived completely.
-/
def complete (arrived : Bytes) : Nat :=
  (Leb128.framer.split arrived).frames.length

/--
What has arrived of the next packet.
-/
def trailing (arrived : Bytes) : Bytes :=
  (Leb128.framer.split arrived).rest

/--
Read `k` finishes a packet and goes on into a later one, beyond its length.
-/
def CutsInto (reads : List Bytes) (k : Nat) : Prop :=
  complete (reads.take k).flatten < complete (reads.take (k + 1)).flatten
    ∧ ¬ ∀ b ∈ trailing (reads.take (k + 1)).flatten, Leb128.more b = true

/--
What is at hand when read `k` has come: what was left of the reads before, and the read.
-/
def atHand (reads : List Bytes) (k : Nat) : Bytes :=
  trailing (reads.take k).flatten ++ (reads[k]?).getD []

/--
Those of a list, one for each packet of the stream, whose packets read `k` completes.
-/
def completed {α : Type} (reads : List Bytes) (k : Nat) (xs : List α) : List α :=
  (xs.take (complete (reads.take (k + 1)).flatten)).drop (complete (reads.take k).flatten)

/--
The output block of `transform_in` behind the frames of the items.
-/
def Item.outBlock (tr : ZlibMc18Transformer) (len : Nat) (items : List Item) : Except Fault OutBuffer :=
  OutBuffer.alloc len >>= (items.filterMap Item.frame).foldlM tr.putFrame

/--
The output block cannot be made large enough for the frames that read `k` completes: its size would
have to be more than an `int` holds.
-/
def Overflows (tr : ZlibMc18Transformer) (items : List Item) (reads : List Bytes) (k : Nat) : Prop :=
  complete (reads.take k).flatten < complete (reads.take (k + 1)).flatten
    ∧ ∀ buf, Item.outBlock tr (atHand reads k).length (completed reads k items) ≠ .ok buf

section Parts

variable {ps : List ZlibPacket} {arrived : Bytes}

theorem parts_of_prefix (h : arrived <+: ZlibPacket.wires ps)
    : complete arrived ≤ ps.length
        ∧ arrived = ZlibPacket.wires (ps.take (complete arrived)) ++ trailing arrived
        ∧ trailing arrived <+: ZlibPacket.wires (ps.drop (complete arrived))
        ∧ ∀ q ∈ (ps.drop (complete arrived)).head?, q.Cut (trailing arrived) := by
  have hframes : ∀ f ∈ ps.map ZlibPacket.wire, Leb128.framer.IsFrame f := by
    intro f hf
    obtain ⟨p, _, hp⟩ := List.mem_map.mp hf
    exact hp ▸ p.isFrame_wire
  obtain ⟨before, after, rest, heq, hsplit, hflat, hrest, hlast⟩ :=
    Leb128.framer.split_of_prefix hframes h
  have hn : complete arrived = before.length := by rw [complete, hsplit]
  have htrailing : trailing arrived = rest := by rw [trailing, hsplit]
  have hbefore : before = (ps.take before.length).map ZlibPacket.wire := by
    rw [List.map_take, heq, List.take_left]
  have hafter : after = (ps.drop before.length).map ZlibPacket.wire := by
    rw [List.map_drop, heq, List.drop_left]
  have hlen := congrArg List.length heq
  rw [List.length_map, List.length_append] at hlen
  have hpre : rest <+: ZlibPacket.wires (ps.drop before.length) := by
    rw [hafter] at hrest
    exact hrest
  rw [hn, htrailing]
  refine ⟨by omega, ?_, hpre, ?_⟩
  . rw [ZlibPacket.wires, ← hbefore]
    exact hflat
  . intro q hq
    cases hdrop : ps.drop before.length with
    | nil => simp [hdrop] at hq
    | cons q' qs =>
      have heq : q' = q := by simpa [hdrop] using hq
      subst heq
      rw [hdrop] at hpre hafter
      have hlt := hlast q'.wire (by simp [hafter])
      exact ⟨List.prefix_of_prefix_length_le hpre (List.prefix_append _ _) (by omega), hlt⟩

theorem parts_append {data : Bytes} (h : arrived ++ data <+: ZlibPacket.wires ps)
    : complete arrived ≤ complete (arrived ++ data)
        ∧ ∃ new, ps.take (complete (arrived ++ data)) = ps.take (complete arrived) ++ new
          ∧ new.length = complete (arrived ++ data) - complete arrived
          ∧ trailing arrived ++ data = ZlibPacket.wires new ++ trailing (arrived ++ data) := by
  have hle : complete arrived ≤ complete (arrived ++ data) := by
    rw [complete, complete, Leb128.framer.split_append arrived data, List.length_append]
    omega
  have hpre : arrived <+: ZlibPacket.wires ps :=
    List.IsPrefix.trans (List.prefix_append _ _) h
  obtain ⟨_, hold, _, _⟩ := parts_of_prefix hpre
  obtain ⟨hlen, hnew, _, _⟩ := parts_of_prefix h
  refine ⟨hle, (ps.drop (complete arrived)).take (complete (arrived ++ data) - complete arrived),
    ?_, ?_, ?_⟩
  . rw [← List.take_add]
    congr 1
    omega
  . rw [List.length_take, List.length_drop]
    omega
  . have hsplit : ps.take (complete (arrived ++ data)) = ps.take (complete arrived)
        ++ (ps.drop (complete arrived)).take (complete (arrived ++ data) - complete arrived) := by
      rw [← List.take_add]
      congr 1
      omega
    rw [hsplit, ZlibPacket.wires_append, List.append_assoc] at hnew
    apply @List.append_cancel_left _ (ZlibPacket.wires (ps.take (complete arrived)))
    rw [← hnew, ← List.append_assoc, ← hold]

end Parts

namespace Stage

variable {tr : ZlibMc18Transformer} {ps : List ZlibPacket} {arrived data : Bytes} {s : Stage}

/--
A trailing packet has at most its length complete, or is cut off behind it.
-/
theorem trailing_cases (hvalid : ∀ p ∈ ps, p.Valid tr.zlib) (h : arrived <+: ZlibPacket.wires ps)
    : (∀ b ∈ trailing arrived, Leb128.more b = true)
        ∨ ∃ next ∈ ps, next.Valid tr.zlib ∧ next.CutBehindLength (trailing arrived) := by
  obtain ⟨_, _, hpre, hcut⟩ := parts_of_prefix h
  cases hdrop : ps.drop (complete arrived) with
  | nil =>
    rw [hdrop, ZlibPacket.wires_nil] at hpre
    simp [List.prefix_nil.mp hpre]
  | cons next qs =>
    have hmem : next ∈ ps := List.mem_of_mem_drop (by rw [hdrop]; exact List.mem_cons_self)
    cases (hcut next (by simp [hdrop])).more_or_behind with
    | inl hmore => exact Or.inl hmore
    | inr hbehind => exact Or.inr ⟨next, hmem, hvalid next hmem, hbehind⟩

theorem feed_cut {r : Bytes} (hr : (∀ b ∈ r, Leb128.more b = true)
      ∨ ∃ next : ZlibPacket, next.Valid tr.zlib ∧ next.CutBehindLength r)
    (heq : s.buf ++ data = r) : s.feed tr data = { s with buf := r } := by
  unfold feed
  dsimp only
  rw [heq, inEnough_cut hr]
  rfl

/--
With a complete packet at hand everything depends on `transform_in`.
-/
theorem feed_wires {p : ZlibPacket} {qs : List ZlibPacket} {r : Bytes} (hp : p.Valid tr.zlib)
    (heq : s.buf ++ data = ZlibPacket.wires (p :: qs) ++ r)
    : s.feed tr data
        =
      match tr.transformIn (s.buf ++ data) with
      | .error fault => { s with buf := [], fault := some (s.fault.getD fault) }
      | .ok res => { s with buf := (s.buf ++ data).drop res.consumed, ftb := s.ftb ++ res.out } := by
  unfold feed
  have henough : inEnough (s.buf ++ data) = .ok 1 := by
    rw [heq, ZlibPacket.wires_cons, List.append_assoc]
    exact inEnough_wire hp _
  dsimp only
  rw [henough]
  rfl

theorem feed_of_more {p : ZlibPacket} {qs : List ZlibPacket} {r : Bytes}
    (hvalid : ∀ q ∈ p :: qs, q.Valid tr.zlib) (hgood : ∀ q ∈ p :: qs, q.received tr.zlib ≠ none)
    (hr : ∀ b ∈ r, Leb128.more b = true) (heq : s.buf ++ data = ZlibPacket.wires (p :: qs) ++ r)
    : s.feed tr data
        =
      match outBlock tr.zlib (s.buf ++ data).length (p :: qs) with
      | .error fault => { s with buf := [], fault := some (s.fault.getD fault) }
      | .ok _ => { s with buf := r, ftb := s.ftb ++ ZlibPacket.receivedAll tr.zlib (p :: qs) } := by
  rw [feed_wires (hvalid p (by simp)) heq, heq, transformIn_wires hvalid hgood hr]
  cases hblock : outBlock tr.zlib (ZlibPacket.wires (p :: qs) ++ r).length (p :: qs) with
  | error fault => rfl
  | ok buf =>
    simp only [Except.map]
    rw [out_of_outBlock hgood hblock, List.drop_left]

theorem feed_of_behind (hz : tr.zlib.Correct) {p : ZlibPacket} {qs : List ZlibPacket} {r : Bytes}
    (hvalid : ∀ q ∈ p :: qs, q.Valid tr.zlib) (hgood : ∀ q ∈ p :: qs, q.received tr.zlib ≠ none)
    {next : ZlibPacket} (hnvalid : next.Valid tr.zlib) (hngood : next.received tr.zlib ≠ none)
    (hr : next.CutBehindLength r) (heq : s.buf ++ data = ZlibPacket.wires (p :: qs) ++ r)
    : (s.feed tr data).fault ≠ none := by
  rw [feed_wires (hvalid p (by simp)) heq]
  have hfuel : (p :: qs).length < (s.buf ++ data).length := by
    have := ZlibPacket.length_le_length_wires (p :: qs)
    have hpos : 0 < r.length := by
      have := hr.2.length_le
      have := Leb128.length_encode_pos next.inner.length
      omega
    rw [heq, List.length_append]
    omega
  have hdrop : (s.buf ++ data).drop 0 = ZlibPacket.wires (p :: qs) ++ r := by
    rw [List.drop_zero, heq]
  have herror : ∃ fault, tr.transformIn (s.buf ++ data) = .error fault := by
    unfold ZlibMc18Transformer.transformIn
    cases OutBuffer.alloc (s.buf ++ data).length with
    | error fault => exact ⟨fault, rfl⟩
    | ok buf => exact go_behind hz hvalid hgood hnvalid hngood hr hdrop hfuel
  obtain ⟨fault, hfault⟩ := herror
  rw [hfault]
  simp

/--
A read on any stream: the buffer starts with a packet again.
-/
theorem feed_aligned (hz : tr.zlib.Correct) (hvalid : ∀ p ∈ ps, p.Valid tr.zlib)
    (h : s.buf ++ data <+: ZlibPacket.wires ps) (hfault : (s.feed tr data).fault = none)
    : (s.feed tr data).disconnectReq = s.disconnectReq
        ∧ ∃ done todo, ps = done ++ todo
          ∧ s.buf ++ data = ZlibPacket.wires done ++ (s.feed tr data).buf := by
  obtain ⟨_, hparts, _, _⟩ := parts_of_prefix h
  have hcases : (∀ b ∈ trailing (s.buf ++ data), Leb128.more b = true)
      ∨ ∃ next : ZlibPacket, next.Valid tr.zlib ∧ next.CutBehindLength (trailing (s.buf ++ data)) := by
    cases trailing_cases hvalid h with
    | inl hmore => exact Or.inl hmore
    | inr hbehind =>
      obtain ⟨next, _, hnext⟩ := hbehind
      exact Or.inr ⟨next, hnext⟩
  cases htake : ps.take (complete (s.buf ++ data)) with
  | nil =>
    rw [htake, ZlibPacket.wires_nil, List.nil_append] at hparts
    rw [feed_cut hcases hparts]
    exact ⟨rfl, [], ps, rfl, hparts⟩
  | cons p qs =>
    rw [htake] at hparts
    have hmem : ∀ q ∈ p :: qs, q.Valid tr.zlib := by
      intro q hq
      rw [← htake] at hq
      exact hvalid q (List.mem_of_mem_take hq)
    have hfeed := feed_wires (s := s) (hmem p (by simp)) hparts
    cases hin : tr.transformIn (s.buf ++ data) with
    | error fault =>
      rw [hin] at hfeed
      rw [hfeed] at hfault
      simp at hfault
    | ok res =>
      rw [hin] at hfeed
      obtain ⟨buf, _, hgo⟩ := bind_eq_ok_iff.mp hin
      obtain ⟨done, hdone, hconsumed⟩ := go_consumed hz hmem hcases
        (by rw [List.drop_zero]; exact hparts) hgo
      rw [hfeed]
      refine ⟨rfl, done, ps.drop done.length, ?_, ?_⟩
      . have hpre : done <+: ps := by
          rw [← htake] at hdone
          exact hdone.trans (List.take_prefix _ _)
        exact (List.prefix_iff_eq_append.mp hpre).symm
      . rw [Nat.zero_add] at hconsumed
        dsimp only
        rw [hconsumed]
        rcases hdone with ⟨t, ht⟩
        have hwires : ZlibPacket.wires (p :: qs) = ZlibPacket.wires done ++ ZlibPacket.wires t := by
          rw [← ht, ZlibPacket.wires_append]
        rw [hparts, hwires, List.append_assoc, List.drop_left]

/--
The stage holds what the packets that have arrived make, and the beginning of the next one.
-/
structure Tracks (z : Zlib) (ps : List ZlibPacket) (arrived : Bytes) (s : Stage) : Prop where
  buf : s.buf = trailing arrived
  ftb : s.ftb = ZlibPacket.receivedAll z (ps.take (complete arrived))
  disconnectReq : s.disconnectReq = false
  fault : s.fault = none

theorem tracks_nil (z : Zlib) (ps : List ZlibPacket) : Tracks z ps [] ⟨[], [], false, none⟩ := by
  have hsplit := Leb128.framer.split_of_partial Leb128.framer.partial_nil
  constructor <;> simp [trailing, complete, hsplit]

theorem Tracks.feed (hz : tr.zlib.Correct) (hvalid : ∀ p ∈ ps, p.Valid tr.zlib)
    (hgood : ∀ p ∈ ps, p.received tr.zlib ≠ none) (h : Tracks tr.zlib ps arrived s)
    (hpre : arrived ++ data <+: ZlibPacket.wires ps) {new : List ZlibPacket}
    (hnew : new = (ps.take (complete (arrived ++ data))).drop (complete arrived))
    : (complete arrived < complete (arrived ++ data)
          ∧ ((¬ ∀ b ∈ trailing (arrived ++ data), Leb128.more b = true)
            ∨ ∀ buf, outBlock tr.zlib (trailing arrived ++ data).length new ≠ .ok buf)
          ∧ (s.feed tr data).fault ≠ none)
        ∨ (¬ (complete arrived < complete (arrived ++ data)
            ∧ ((¬ ∀ b ∈ trailing (arrived ++ data), Leb128.more b = true)
              ∨ ∀ buf, outBlock tr.zlib (trailing arrived ++ data).length new ≠ .ok buf))
          ∧ Tracks tr.zlib ps (arrived ++ data) (s.feed tr data)) := by
  obtain ⟨hle, new', htake, hlen, hdata⟩ := parts_append hpre
  have hsame : new = new' := by
    obtain ⟨hcomplete, _⟩ := parts_of_prefix (List.IsPrefix.trans (List.prefix_append _ data) hpre)
    have hbefore : (ps.take (complete arrived)).length = complete arrived :=
      List.length_take_of_le hcomplete
    rw [hnew, htake]
    exact List.drop_left' hbefore
  subst hsame
  rw [← h.buf] at hdata
  have hcases := trailing_cases hvalid hpre
  cases hcons : new with
  | nil =>
    right
    rw [hcons, List.length_nil] at hlen
    rw [hcons, ZlibPacket.wires_nil, List.nil_append] at hdata
    have hfeed : s.feed tr data = { s with buf := trailing (arrived ++ data) } := by
      apply feed_cut _ hdata
      cases hcases with
      | inl hmore => exact Or.inl hmore
      | inr hbehind =>
        obtain ⟨next, _, hnext⟩ := hbehind
        exact Or.inr ⟨next, hnext⟩
    refine ⟨by omega, ?_⟩
    rw [hfeed]
    constructor
    . rfl
    . rw [htake, hcons, List.append_nil]
      exact h.ftb
    . exact h.disconnectReq
    . exact h.fault
  | cons p qs =>
    rw [hcons] at hlen hdata htake
    have hlt : complete arrived < complete (arrived ++ data) := by
      rw [List.length_cons] at hlen
      omega
    have hmem : ∀ q ∈ p :: qs, q ∈ ps := by
      intro q hq
      have : q ∈ ps.take (complete (arrived ++ data)) := by
        rw [htake]
        exact List.mem_append_right _ hq
      exact List.mem_of_mem_take this
    have hvalid' : ∀ q ∈ p :: qs, q.Valid tr.zlib := fun q hq => hvalid q (hmem q hq)
    have hgood' : ∀ q ∈ p :: qs, q.received tr.zlib ≠ none := fun q hq => hgood q (hmem q hq)
    rw [← h.buf]
    cases hcases with
    | inl hmore =>
      have hfeed := feed_of_more hvalid' hgood' hmore hdata
      cases hblock : outBlock tr.zlib (s.buf ++ data).length (p :: qs) with
      | error fault =>
        left
        rw [hblock] at hfeed
        refine ⟨hlt, Or.inr (by simp), ?_⟩
        rw [hfeed]
        simp
      | ok buf =>
        right
        rw [hblock] at hfeed
        refine ⟨?_, ?_⟩
        . rintro ⟨_, hcut | hfull⟩
          . exact hcut hmore
          . exact hfull buf rfl
        . rw [hfeed]
          constructor
          . rfl
          . rw [htake, ZlibPacket.receivedAll_append, ← h.ftb]
          . exact h.disconnectReq
          . exact h.fault
    | inr hbehind =>
      left
      obtain ⟨next, hnext, hnvalid, hcut⟩ := hbehind
      exact ⟨hlt, Or.inl hcut.not_more,
        feed_of_behind hz hvalid' hgood' hnvalid (hgood next hnext) hcut hdata⟩

/--
Read `k` goes wrong: it goes on into a later packet, or the output block overflows.
-/
def Bad (z : Zlib) (ps : List ZlibPacket) (reads : List Bytes) (k : Nat) : Prop :=
  complete (reads.take k).flatten < complete (reads.take (k + 1)).flatten
    ∧ ((¬ ∀ b ∈ trailing (reads.take (k + 1)).flatten, Leb128.more b = true)
      ∨ ∀ buf, outBlock z (atHand reads k).length (completed reads k ps) ≠ .ok buf)

/--
One more read: it goes wrong, or the stage keeps track of the stream.
-/
theorem Tracks.feedAll_succ (hz : tr.zlib.Correct) (hvalid : ∀ p ∈ ps, p.Valid tr.zlib)
    (hgood : ∀ p ∈ ps, p.received tr.zlib ≠ none) {reads : List Bytes}
    (hreads : reads.flatten = ZlibPacket.wires ps) {k : Nat}
    (h : Tracks tr.zlib ps (reads.take k).flatten (feedAll tr ⟨[], [], false, none⟩ (reads.take k)))
    : (Bad tr.zlib ps reads k
          ∧ (feedAll tr ⟨[], [], false, none⟩ (reads.take (k + 1))).fault ≠ none)
        ∨ (¬ Bad tr.zlib ps reads k
          ∧ Tracks tr.zlib ps (reads.take (k + 1)).flatten
            (feedAll tr ⟨[], [], false, none⟩ (reads.take (k + 1)))) := by
  cases hget : reads[k]? with
  | none =>
    have htake : reads.take (k + 1) = reads.take k := by
      rw [List.take_add_one, hget, Option.toList_none, List.append_nil]
    right
    rw [htake]
    refine ⟨fun hbad => ?_, h⟩
    have hlt := hbad.1
    rw [htake] at hlt
    omega
  | some data =>
    have htake : (reads.take (k + 1)).flatten = (reads.take k).flatten ++ data := by
      rw [List.take_add_one, hget]
      simp
    have hpre : (reads.take k).flatten ++ data <+: ZlibPacket.wires ps := by
      have := Framing.flatten_take_prefix reads (k + 1)
      rwa [htake, hreads] at this
    have hfeed : feedAll tr ⟨[], [], false, none⟩ (reads.take (k + 1))
        = (feedAll tr ⟨[], [], false, none⟩ (reads.take k)).feed tr data := by
      rw [List.take_add_one, hget, feedAll, List.foldl_append]
      rfl
    have hnew : completed reads k ps
        = (ps.take (complete ((reads.take k).flatten ++ data))).drop
          (complete (reads.take k).flatten) := by
      rw [completed, htake]
    have hhand : atHand reads k = trailing (reads.take k).flatten ++ data := by
      rw [atHand, hget]
      rfl
    unfold Bad
    rw [hfeed, htake, hhand]
    cases h.feed hz hvalid hgood hpre hnew with
    | inl hbad => exact Or.inl ⟨⟨hbad.1, hbad.2.1⟩, hbad.2.2⟩
    | inr hok => exact Or.inr hok

theorem tracks_feedAll (hz : tr.zlib.Correct) (hvalid : ∀ p ∈ ps, p.Valid tr.zlib)
    (hgood : ∀ p ∈ ps, p.received tr.zlib ≠ none) {reads : List Bytes}
    (hreads : reads.flatten = ZlibPacket.wires ps) {k : Nat}
    (hfine : ∀ j < k, ¬ Bad tr.zlib ps reads j)
    : Tracks tr.zlib ps (reads.take k).flatten
        (feedAll tr ⟨[], [], false, none⟩ (reads.take k)) := by
  induction k with
  | zero => exact tracks_nil _ _
  | succ k ih =>
    have ih := ih (fun j hj => hfine j (by omega))
    cases ih.feedAll_succ hz hvalid hgood hreads with
    | inl hbad => exact absurd hbad.1 (hfine k (by omega))
    | inr hok => exact hok.2

/--
As long as nothing undefined happens no read goes wrong.
-/
theorem not_bad_of_fault (hz : tr.zlib.Correct) (hvalid : ∀ p ∈ ps, p.Valid tr.zlib)
    (hgood : ∀ p ∈ ps, p.received tr.zlib ≠ none) {reads : List Bytes}
    (hreads : reads.flatten = ZlibPacket.wires ps)
    (hfault : ∀ k, (feedAll tr ⟨[], [], false, none⟩ (reads.take k)).fault = none) (k : Nat)
    : ¬ Bad tr.zlib ps reads k := by
  induction k using Nat.strongRecOn with
  | ind k ih =>
    intro hbad
    have htracks := tracks_feedAll hz hvalid hgood hreads ih
    cases htracks.feedAll_succ hz hvalid hgood hreads with
    | inl hwrong => exact hwrong.2 (hfault (k + 1))
    | inr hok => exact hok.1 hbad

/--
What has not been taken from the buffer starts with a packet, and nobody asks for a disconnect.
-/
theorem aligned_feedAll (hz : tr.zlib.Correct) (hvalid : ∀ p ∈ ps, p.Valid tr.zlib)
    {reads : List Bytes} (hreads : reads.flatten = ZlibPacket.wires ps) {k : Nat}
    (hfault : ∀ j ≤ k, (feedAll tr ⟨[], [], false, none⟩ (reads.take j)).fault = none)
    : (feedAll tr ⟨[], [], false, none⟩ (reads.take k)).disconnectReq = false
        ∧ ∃ done todo, ps = done ++ todo
          ∧ (reads.take k).flatten
            = ZlibPacket.wires done ++ (feedAll tr ⟨[], [], false, none⟩ (reads.take k)).buf := by
  induction k with
  | zero => exact ⟨rfl, [], ps, rfl, rfl⟩
  | succ k ih =>
    obtain ⟨hreq, done, todo, hps, harrived⟩ := ih (fun j hj => hfault j (by omega))
    have hnone := hfault (k + 1) (Nat.le_refl _)
    have hpre := Framing.flatten_take_prefix reads (k + 1)
    rw [List.take_add_one] at hnone hpre ⊢
    cases hget : reads[k]? with
    | none =>
      rw [Option.toList_none, List.append_nil]
      exact ⟨hreq, done, todo, hps, harrived⟩
    | some data =>
      rw [hget, hreads] at hpre
      rw [hget] at hnone
      simp only [Option.toList_some, List.flatten_append, List.flatten_cons, List.flatten_nil,
        List.append_nil, feedAll, List.foldl_append, List.foldl_cons, List.foldl_nil] at *
      rw [harrived, List.append_assoc, hps, ZlibPacket.wires_append,
        List.prefix_append_right_inj] at hpre
      have htodo : ∀ p ∈ todo, p.Valid tr.zlib := by
        intro p hp
        exact hvalid p (by simp [hps, hp])
      obtain ⟨hreq', done', todo', hps', hbuf⟩ := feed_aligned hz htodo hpre hnone
      refine ⟨by rw [hreq', hreq], done ++ done', todo', ?_, ?_⟩
      . rw [hps, hps', List.append_assoc]
      . rw [harrived, List.append_assoc, hbuf, ZlibPacket.wires_append, List.append_assoc]

end Stage

section Items

variable {tr : ZlibMc18Transformer} {items : List Item} {ps : List ZlibPacket}

def Item.wires (items : List Item) : Bytes :=
  (items.map Item.wire).flatten

/--
The frames in front of the first packet nothing can be made of.
-/
def Item.delivered (items : List Item) : Bytes :=
  ((items.takeWhile (·.frame.isSome)).filterMap Item.frame).flatten

theorem exists_packets (hz : tr.zlib.Correct) (hsent : ∀ it ∈ items, it.Sent tr)
    : ∃ ps, List.Forall₂ (Item.Carries tr) items ps := by
  induction items with
  | nil => exact ⟨[], .nil⟩
  | cons it items ih =>
    obtain ⟨p, hp⟩ := (hsent it (by simp)).exists_packet hz
    obtain ⟨ps, hps⟩ := ih (fun x hx => hsent x (by simp [hx]))
    exact ⟨p :: ps, .cons hp hps⟩

theorem wires_eq (h : List.Forall₂ (Item.Carries tr) items ps)
    : ZlibPacket.wires ps = Item.wires items := by
  induction h with
  | nil => rfl
  | cons hp _ ih => rw [ZlibPacket.wires_cons, ih, hp.wire]; rfl

theorem valid_of_carries (h : List.Forall₂ (Item.Carries tr) items ps)
    : ∀ p ∈ ps, p.Valid tr.zlib := by
  induction h with
  | nil => simp
  | cons hp _ ih => simpa using ⟨hp.valid, ih⟩

theorem received_ne_none (h : List.Forall₂ (Item.Carries tr) items ps)
    (hgood : ∀ it ∈ items, it.frame ≠ none) : ∀ p ∈ ps, p.received tr.zlib ≠ none := by
  induction h with
  | nil => simp
  | @cons it p items ps hp _ ih =>
    obtain ⟨f, hf⟩ := Option.ne_none_iff_exists'.mp (hgood it (by simp))
    obtain ⟨g, hg, _⟩ := hp.received f hf
    intro q hq
    cases List.mem_cons.mp hq with
    | inl heq => rw [heq, hg]; simp
    | inr hmem => exact ih (fun x hx => hgood x (by simp [hx])) q hmem

theorem delivered_cons {it : Item} {f : Bytes} (hf : it.frame = some f) (items : List Item)
    : Item.delivered (it :: items) = f ++ Item.delivered items := by
  simp [Item.delivered, hf]

theorem receivedAll_eq_delivered (h : List.Forall₂ (Item.Carries tr) items ps)
    (hgood : ∀ it ∈ items, it.frame ≠ none)
    (hempty : ∀ it ∈ items, it.frame = some emptyFrame → 0 < tr.threshold)
    : ZlibPacket.receivedAll tr.zlib ps = Item.delivered items := by
  induction h with
  | nil => rfl
  | @cons it p items ps hp _ ih =>
    obtain ⟨f, hf⟩ := Option.ne_none_iff_exists'.mp (hgood it (by simp))
    obtain ⟨g, hg, _, hsame⟩ := hp.received f hf
    have hfg : g = f := by
      apply hsame
      rintro ⟨rfl, hthreshold⟩
      have := hempty it (by simp) hf
      omega
    rw [ZlibPacket.receivedAll_cons hg, delivered_cons hf, hfg,
      ih (fun x hx => hgood x (by simp [hx])) (fun x hx => hempty x (by simp [hx]))]

/--
An empty body that went through `deflate` leaves a trace.
-/
theorem length_delivered_lt (h : List.Forall₂ (Item.Carries tr) items ps)
    (hgood : ∀ it ∈ items, it.frame ≠ none)
    : (Item.delivered items).length ≤ (ZlibPacket.receivedAll tr.zlib ps).length
        ∧ ((∃ it ∈ items, it.frame = some emptyFrame ∧ tr.threshold ≤ 0) →
          (Item.delivered items).length < (ZlibPacket.receivedAll tr.zlib ps).length) := by
  induction h with
  | nil => simp [Item.delivered]
  | @cons it p items ps hp _ ih =>
    obtain ⟨f, hf⟩ := Option.ne_none_iff_exists'.mp (hgood it (by simp))
    obtain ⟨g, hg, hlonger, hsame⟩ := hp.received f hf
    obtain ⟨hle, hlt⟩ := ih (fun x hx => hgood x (by simp [hx]))
    rw [ZlibPacket.receivedAll_cons hg, delivered_cons hf, List.length_append, List.length_append]
    by_cases hbad : f = emptyFrame ∧ tr.threshold ≤ 0
    . have := hlonger hbad
      exact ⟨by omega, fun _ => by omega⟩
    . have hfg := hsame hbad
      subst hfg
      refine ⟨by omega, fun hex => ?_⟩
      obtain ⟨x, hx, hxf, hthreshold⟩ := hex
      cases List.mem_cons.mp hx with
      | inl heq =>
        rw [heq, hf] at hxf
        injection hxf with hxf
        exact absurd ⟨hxf, hthreshold⟩ hbad
      | inr hmem =>
        have := hlt ⟨x, hmem, hxf, hthreshold⟩
        omega

theorem foldlM_putFrame (h : List.Forall₂ (Item.Carries tr) items ps)
    (hgood : ∀ it ∈ items, it.frame ≠ none)
    (hempty : ∀ it ∈ items, it.frame = some emptyFrame → 0 < tr.threshold) (buf : OutBuffer)
    : (items.filterMap Item.frame).foldlM tr.putFrame buf = ZlibPacket.putAll tr.zlib ps buf := by
  induction h generalizing buf with
  | nil => rfl
  | @cons it p items ps hp _ ih =>
    obtain ⟨f, hf⟩ := Option.ne_none_iff_exists'.mp (hgood it (by simp))
    have hput : p.put tr.zlib buf = tr.putFrame buf f := by
      apply hp.put f hf
      rintro ⟨rfl, hthreshold⟩
      have := hempty it (by simp) hf
      omega
    rw [List.filterMap_cons_some hf, List.foldlM_cons, ZlibPacket.putAll_cons, hput]
    congr 1
    funext b
    exact ih (fun x hx => hgood x (by simp [hx])) (fun x hx => hempty x (by simp [hx])) b

theorem outBlock_items (h : List.Forall₂ (Item.Carries tr) items ps)
    (hgood : ∀ it ∈ items, it.frame ≠ none)
    (hempty : ∀ it ∈ items, it.frame = some emptyFrame → 0 < tr.threshold) (len : Nat)
    : Item.outBlock tr len items = ZlibMc18Transformer.outBlock tr.zlib len ps := by
  unfold Item.outBlock ZlibMc18Transformer.outBlock
  congr 1
  funext buf
  exact foldlM_putFrame h hgood hempty buf

theorem bad_iff (h : List.Forall₂ (Item.Carries tr) items ps)
    (hgood : ∀ it ∈ items, it.frame ≠ none)
    (hempty : ∀ it ∈ items, it.frame = some emptyFrame → 0 < tr.threshold) (reads : List Bytes)
    (k : Nat)
    : Stage.Bad tr.zlib ps reads k ↔ CutsInto reads k ∨ Overflows tr items reads k := by
  have hmem : ∀ it ∈ completed reads k items, it ∈ items :=
    fun it hit => List.mem_of_mem_take (List.mem_of_mem_drop hit)
  have hnew : List.Forall₂ (Item.Carries tr) (completed reads k items) (completed reads k ps) :=
    List.forall₂_drop _ (List.forall₂_take _ h)
  rw [Overflows, outBlock_items hnew (fun it hit => hgood it (hmem it hit))
    (fun it hit => hempty it (hmem it hit)), CutsInto, Stage.Bad, and_or_left]

end Items

namespace Connection

/--
What the transformer at index `i` owes to the stream of the `items`, after every read: nothing
undefined has happened, the frames that have arrived are in `ftb`, what has arrived of the next one
is in `tbs[i]`, and if something corrupt has arrived a disconnect has been requested.
-/
def Delivers {τ : Type} [PacketTransformer τ] (conn : Connection τ) (i : Nat) (items : List Item)
    (reads : List Bytes) : Prop :=
  ∀ k,
    let arrived := (reads.take k).flatten
    let now := conn.arriveAll (reads.take k)
    let before := items.take (complete arrived)
    now.fault = none
      ∧ now.ftb = Item.delivered before
      ∧ ((∀ it ∈ before, it.frame ≠ none) → now.tbs[i]? = some (trailing arrived))
      ∧ ((∃ it ∈ before, it.frame = none) → now.disconnectReq = true)

variable {α : Type} [PacketTransformer α] {pre post : List (ZlibMc18Transformer ⊕ α)}
variable {tr : ZlibMc18Transformer}

theorem complete_wires (ps : List ZlibPacket) : complete (ZlibPacket.wires ps) = ps.length := by
  have hframes : ∀ f ∈ ps.map ZlibPacket.wire, Leb128.framer.IsFrame f := by
    intro f hf
    obtain ⟨p, _, hp⟩ := List.mem_map.mp hf
    exact hp ▸ p.isFrame_wire
  have := Leb128.framer.split_flatten_append hframes []
  rw [List.append_nil, Leb128.framer.split_of_partial Leb128.framer.partial_nil,
    List.append_nil] at this
  rw [complete, ZlibPacket.wires, this, List.length_map]

/--
The stream is delivered if and only if nothing in it is corrupt, no empty body is compressed, no read
that finishes a packet goes on into a later one beyond its length, and the output block can be made
large enough for what each read finishes.
-/
theorem arriveAll_delivers_iff (hz : tr.zlib.Correct) (hon : tr.on = true)
    (hpre : pre.any isOn = false) (hpost : post.any isOn = false) {items : List Item}
    (hsent : ∀ it ∈ items, it.Sent tr) {reads : List Bytes}
    (hreads : reads.flatten = Item.wires items)
    : (start (pre ++ .inl tr :: post)).Delivers pre.length items reads
        ↔
      (∀ it ∈ items, it.frame ≠ none)
        ∧ (∀ it ∈ items, it.frame = some emptyFrame → 0 < tr.threshold)
        ∧ ∀ k, ¬ CutsInto reads k ∧ ¬ Overflows tr items reads k := by
  obtain ⟨ps, hps⟩ := exists_packets hz hsent
  have hvalid := valid_of_carries hps
  rw [← wires_eq hps] at hreads
  have hat := fun k => (At.start pre post tr).arriveAll hon hpre hpost (reads.take k)
  constructor
  . intro h
    have hfault : ∀ k, (Stage.feedAll tr ⟨[], [], false, none⟩ (reads.take k)).fault = none := by
      intro k
      rw [← (hat k).fault]
      exact (h k).1
    have hgood : ∀ it ∈ items, it.frame ≠ none := by
      intro it hit hnone
      obtain ⟨_, _, _, hreq⟩ := h reads.length
      obtain ⟨hquiet, _⟩ := Stage.aligned_feedAll hz hvalid hreads
        (k := reads.length) (fun j _ => hfault j)
      have hlen : items.take (complete (reads.take reads.length).flatten) = items := by
        rw [List.take_length, hreads, complete_wires, ← hps.length_eq, List.take_length]
      rw [hlen, (hat reads.length).disconnectReq, hquiet] at hreq
      exact absurd (hreq ⟨it, hit, hnone⟩) (by simp)
    have hgood' := received_ne_none hps hgood
    have hfine := Stage.not_bad_of_fault hz hvalid hgood' hreads hfault
    have hempty : ∀ it ∈ items, it.frame = some emptyFrame → 0 < tr.threshold := by
      intro it hit hempty
      by_contra hthreshold
      obtain ⟨_, hftb, _, _⟩ := h reads.length
      have htracks := Stage.tracks_feedAll hz hvalid hgood' hreads (fun j _ => hfine j)
        (k := reads.length)
      have hlt := (length_delivered_lt hps hgood).2 ⟨it, hit, hempty, by omega⟩
      rw [(hat reads.length).ftb, htracks.ftb, List.take_length, hreads, complete_wires,
        List.take_length, ← hps.length_eq, List.take_length] at hftb
      rw [hftb] at hlt
      omega
    refine ⟨hgood, hempty, fun k => ?_⟩
    have hk := hfine k
    rw [bad_iff hps hgood hempty, not_or] at hk
    exact hk
  . intro ⟨hgood, hempty, hcuts⟩ k
    have hfine : ∀ j < k, ¬ Stage.Bad tr.zlib ps reads j := by
      intro j _
      rw [bad_iff hps hgood hempty, not_or]
      exact hcuts j
    have htracks := Stage.tracks_feedAll hz hvalid (received_ne_none hps hgood) hreads hfine
    have htake := List.forall₂_take (complete (reads.take k).flatten) hps
    dsimp only
    refine ⟨?_, ?_, ?_, ?_⟩
    . rw [(hat k).fault, htracks.fault]
    . rw [(hat k).ftb, htracks.ftb]
      exact receivedAll_eq_delivered htake (fun it hit => hgood it (List.mem_of_mem_take hit))
        (fun it hit => hempty it (List.mem_of_mem_take hit))
    . intro _
      rw [(hat k).buf, htracks.buf]
    . intro ⟨it, hit, hnone⟩
      exact absurd hnone (hgood it (List.mem_of_mem_take hit))

/--
A transformer that leaves packets below 256 bytes alone.
-/
def threshold256 : ZlibMc18Transformer :=
  { zlib := .marked, on := true, threshold := 256 }

theorem sent_threshold256 (b : UInt8)
    : Item.Sent threshold256 ⟨[2, 0, b], some [1, b]⟩ := by
  have hone : Bin.writeVarint 1 = [1] := by simp [Bin.writeVarint_eq_encode, Leb128.encode]
  have htwo : Bin.writeVarint 2 = [2] := by simp [Bin.writeVarint_eq_encode, Leb128.encode]
  have hzero : Bin.writeVarint 0 = [0] := by simp [Bin.writeVarint_eq_encode, Leb128.encode]
  have hframe : Bin.writeVarint [b].length ++ [b] = [1, b] := by simp [hone]
  rw [← hframe]
  have hdeflate : (threshold256.zlib.deflate [b]).length < 2 ^ 30 := by
    rw [show (threshold256.zlib.deflate [b]).length = 3 from rfl]
    omega
  refine .frame [b] [2, 0, b] (by simp) hdeflate ?_
  rw [hframe]
  have hsize : Bin.varintSize 2 = some 1 := by decide
  have hread : readLength [1, b] = .ok (1, 1) := by
    have h := readLength_encode (n := 1) (by omega) [b]
    rw [Bin.int32_eq_self (by omega)] at h
    simpa [Leb128.encode] using h
  simp [transformOut, hread, bind, Except.bind, threshold256, hsize, htwo, hzero, pure, Except.pure]

theorem arriveAll_delivers_iff_cut_in_front
    : (start [(Sum.inl threshold256 : ZlibMc18Transformer ⊕ Empty)]).Delivers 0
          [⟨[2, 0, 7], some [1, 7]⟩, ⟨[2, 0, 8], some [1, 8]⟩] [[2, 0], [7], [2, 0, 8]]
        ↔
      (∀ it ∈ [Item.mk [2, 0, 7] (some [1, 7]), ⟨[2, 0, 8], some [1, 8]⟩], it.frame ≠ none)
        ∧ (∀ it ∈ [Item.mk [2, 0, 7] (some [1, 7]), ⟨[2, 0, 8], some [1, 8]⟩],
          it.frame = some emptyFrame → 0 < threshold256.threshold)
        ∧ ∀ k, ¬ CutsInto [[2, 0], [7], [2, 0, 8]] k
          ∧ ¬ Overflows threshold256 [⟨[2, 0, 7], some [1, 7]⟩, ⟨[2, 0, 8], some [1, 8]⟩]
            [[2, 0], [7], [2, 0, 8]] k :=
  have hsent : ∀ it ∈ [Item.mk [2, 0, 7] (some [1, 7]), ⟨[2, 0, 8], some [1, 8]⟩],
      it.Sent threshold256 := by
    simpa using ⟨sent_threshold256 7, sent_threshold256 8⟩
  @arriveAll_delivers_iff Empty _ [] [] threshold256 Zlib.marked.correct rfl rfl rfl _ hsent _ rfl

theorem not_delivers_of_fault (hon : tr.on = true) (hpre : pre.any isOn = false)
    (hpost : post.any isOn = false) {data : Bytes}
    (hfault : (Stage.feed tr ⟨[], [], false, none⟩ data).fault ≠ none) (items : List Item)
    (reads : List Bytes)
    : ¬ (start (pre ++ .inl tr :: post)).Delivers pre.length items (data :: reads) := by
  intro h
  have hat := (At.start pre post tr).arriveAll hon hpre hpost [data]
  obtain ⟨hnone, _⟩ := h 1
  rw [show (data :: reads).take 1 = [data] from rfl, hat.fault] at hnone
  exact hfault hnone

/--
The first read ends in the second packet, behind its length: the packet is copied from beyond the
end of the buffer.
-/
theorem not_delivers_cut_behind
    : Item.Sent threshold256 ⟨[2, 0, 7], some [1, 7]⟩
        ∧ Item.Sent threshold256 ⟨[2, 0, 8], some [1, 8]⟩
        ∧ ¬ (start [(Sum.inl threshold256 : ZlibMc18Transformer ⊕ Empty)]).Delivers 0
          [⟨[2, 0, 7], some [1, 7]⟩, ⟨[2, 0, 8], some [1, 8]⟩] [[2, 0, 7, 2, 0], [8]] := by
  refine ⟨sent_threshold256 7, sent_threshold256 8, ?_⟩
  have hwire : ∀ b, (ZlibPacket.mk 0 [b]).wire = [2, 0, b] := by
    simp [ZlibPacket.wire, ZlibPacket.inner, Leb128.encode]
  have hvalid : ∀ b, (ZlibPacket.mk 0 [b]).Valid threshold256.zlib :=
    fun b => ⟨by dsimp only; omega, by rw [hwire]; simp, Or.inl rfl⟩
  have hgood : ∀ b, (ZlibPacket.mk 0 [b]).received threshold256.zlib ≠ none := by
    simp [ZlibPacket.received]
  have hcut : (ZlibPacket.mk 0 [8]).CutBehindLength [2, 0] := by
    refine ⟨⟨by rw [hwire]; exact ⟨[8], rfl⟩, by rw [hwire]; simp⟩, ?_⟩
    exact ⟨[0], by simp [ZlibPacket.inner, Leb128.encode]⟩
  have heq : [] ++ [2, 0, 7, 2, 0] = ZlibPacket.wires [⟨0, [7]⟩] ++ [2, 0] := by
    simp [ZlibPacket.wires, hwire]
  refine @not_delivers_of_fault Empty _ [] [] threshold256 rfl rfl rfl [2, 0, 7, 2, 0] ?_ _ [[8]]
  exact Stage.feed_of_behind Zlib.marked.correct (by simpa using hvalid 7)
    (by simpa using hgood 7) (hvalid 8) (hgood 8) hcut heq

end Connection

end HCraft
