import Spook.Rtp.Mpeg4.Basic
import Mathlib.Algebra.Order.Ring.Int
import Mathlib.Tactic.Push

set_option relaxedAutoImplicit false
set_option autoImplicit false

/-!
# Sending MPEG-4

`mpeg4_send` walks over the elements with one cursor and over the room left in a packet with
another. A packet is sent when the next element does not fit any more, and what is left of the
element goes into the next packets.

## Main results

* `Spook.mpeg4_tiles` — the packets carry the elements.
-/

namespace Spook

section Send

variable {c timestamp : ℕ}

/-- A number that is not negative and fits is the same as a `size_t`. -/
theorem sizeT_natCast {n : ℕ} (h : n < 2 ^ 32) : sizeT n = n := by
  unfold sizeT
  omega

/-- How often the loop of `mpeg4_send` goes on when `left` bytes of `elements` elements are left. -/
def mpeg4Steps (left elements space : ℕ) : ℕ := 2 * left + elements + (if space = 0 then 1 else 0) + 1

/-- An element that fits is taken into the packet. -/
theorem mpeg4SendLoop_fits {e : Bytes} {rest v : List Bytes} {n off space : ℕ}
    (hspace : space < 2 ^ 32) (hv : v.length + 1 < mpeg4VSize) (hfits : e.length - off ≤ space)
    (σ : Type) (send : RtpSend σ) (s : σ) :
    mpeg4SendLoop c timestamp σ send (n + 1) (e :: rest) off space v s =
      mpeg4SendLoop c timestamp σ send n rest 0 ↑(space - (e.length - off)) (v ++ [e.drop off]) s := by
  rw [mpeg4SendLoop, if_neg (by omega), sizeT_natCast hspace, if_neg (by omega),
    Nat.cast_sub hfits]

/-- Of an element that does not fit the packet takes what it has room for. -/
theorem mpeg4SendLoop_send {e : Bytes} {rest v : List Bytes} {n off space : ℕ}
    (hspace : space < 2 ^ 32) (hv : v.length + 1 < mpeg4VSize) (hlong : space < e.length - off)
    (σ : Type) (send : RtpSend σ) (hsend : send.Succeeds) (s : σ) :
    mpeg4SendLoop c timestamp σ send (n + 1) (e :: rest) off space v s =
      mpeg4SendLoop c timestamp σ send n (e :: rest) (off + space) c []
        (send ⟨(v ++ [(e.drop off).take space]).flatten, timestamp, false⟩ s).1 := by
  rw [mpeg4SendLoop, if_neg (by omega), sizeT_natCast hspace, if_pos hlong]
  dsimp only
  rw [if_neg (not_lt.2 (hsend _ _))]

/-- The loop of `mpeg4_send`: the packets carry what the packet under construction holds and what is
left of the elements. The room in the packet is kept beside the bytes it holds; this and the number
of its entries are the invariant.

**Proof sketch.** By induction on the fuel, which the number of elements and full packets bounds.
What is left of the first element fits, and becomes an entry of the packet; or it does not, the
packet is filled up with the beginning of it and sent, and the loop goes on with the rest of the
same element. -/
theorem mpeg4SendLoop_spec (hc : 1 ≤ c) (hint : c < 2 ^ 31) {n : ℕ} (rest v : List Bytes)
    (off space : ℕ) (hoff : ∀ e ∈ rest.head?, off ≤ e.length)
    (hn : mpeg4Steps (rest.flatten.length - off) rest.length space ≤ n)
    (hentries : v.length + rest.length ≤ 24) (hroom : v.flatten.length + space = c) :
    ∃ ps, ps ≠ [] ∧ Delivers (fun σ send => mpeg4SendLoop c timestamp σ send n rest off space v) ps ∧
      Tiles c ps (v.flatten ++ rest.flatten.drop off) := by
  induction n generalizing rest v off space with
  | zero =>
    unfold mpeg4Steps at hn
    omega
  | succ n ih =>
    have hspace : space < 2 ^ 32 := by omega
    cases rest with
    | nil =>
      refine ⟨[⟨v.flatten, timestamp, true⟩], by simp, fun σ send hsend s => ?_, ?_⟩
      · show mpeg4SendLoop c timestamp σ send (n + 1) [] off space v s = _
        rw [mpeg4SendLoop]
        dsimp only
        rw [if_neg (not_lt.2 (hsend _ _))]
        rfl
      · rw [List.flatten_nil, List.drop_nil, List.append_nil]
        exact Tiles.single (p := ⟨v.flatten, timestamp, true⟩) rfl (by dsimp only; omega)
    | cons e rest =>
      have hle : off ≤ e.length := hoff e rfl
      have hv : v.length + 1 < mpeg4VSize := by
        rw [List.length_cons] at hentries
        unfold mpeg4VSize
        omega
      have hdrop : (e :: rest).flatten.drop off = e.drop off ++ rest.flatten := by
        rw [List.flatten_cons, List.drop_append_of_le_length hle]
      have hleft : (e :: rest).flatten.length - off = (e.length - off) + rest.flatten.length := by
        rw [List.flatten_cons, List.length_append]
        omega
      rw [hdrop]
      rw [hleft] at hn
      by_cases hfits : e.length - off ≤ space
      · -- The element ends inside the packet.
        obtain ⟨ps, hne, hdelivers, htiles⟩ := ih rest (v ++ [e.drop off]) 0
          (space - (e.length - off)) (fun _ _ => Nat.zero_le _)
          (by
            unfold mpeg4Steps at hn ⊢
            rw [List.length_cons] at hn
            split_ifs at hn ⊢ <;> omega)
          (by simp only [List.length_append, List.length_cons, List.length_nil] at hentries ⊢; omega)
          (by simp only [List.flatten_append, List.flatten_cons, List.flatten_nil, List.append_nil,
                List.length_append, List.length_drop]; omega)
        refine ⟨ps, hne, fun σ send hsend s => ?_, by simpa using htiles⟩
        show mpeg4SendLoop c timestamp σ send (n + 1) (e :: rest) off space v s = _
        rw [mpeg4SendLoop_fits hspace hv hfits]
        exact hdelivers σ send hsend s
      · -- A packet is sent, and the element goes on in the next one.
        have hlong : space < e.length - off := not_le.1 hfits
        obtain ⟨ps, hne, hdelivers, htiles⟩ := ih (e :: rest) [] (off + space) c
          (by
            intro e' he'
            obtain rfl := Option.some.inj he'
            omega)
          (by
            unfold mpeg4Steps at hn ⊢
            rw [List.flatten_cons, List.length_append]
            split_ifs at hn ⊢ <;> omega)
          (by rw [List.length_nil]; omega) (by simp)
        have hdrop' : (e :: rest).flatten.drop (off + space) =
            (e.drop off).drop space ++ rest.flatten := by
          rw [List.flatten_cons, List.drop_append_of_le_length (by omega), List.drop_drop]
        refine ⟨⟨(v ++ [(e.drop off).take space]).flatten, timestamp, false⟩ :: ps, by simp,
          hdelivers.cons fun σ send hsend s => mpeg4SendLoop_send hspace hv hlong σ send hsend s, ?_⟩
        have hall := @Tiles.cons _ ⟨(v ++ [(e.drop off).take space]).flatten, timestamp, false⟩ _ _
          htiles hne rfl (by
            simp only [List.flatten_append, List.flatten_cons, List.flatten_nil, List.append_nil,
              List.length_append, List.length_take, List.length_drop]
            omega)
        rw [hdrop', List.flatten_nil, List.nil_append] at hall
        have hbytes : (v ++ [(e.drop off).take space]).flatten ++
            ((e.drop off).drop space ++ rest.flatten) = v.flatten ++ (e.drop off ++ rest.flatten) := by
          rw [List.flatten_append, List.flatten_singleton, List.append_assoc, ← List.append_assoc
            ((e.drop off).take space), List.take_append_drop]
        rwa [hbytes] at hall

end Send

/-- **MPEG-4 packetization.** At most 24 elements of any lengths are sent in packets of at most
`max_data_size` bytes that carry them, with the marker on the last one. -/
theorem mpeg4_tiles (timestamp : ℕ) (iov : List Bytes) (hiov : iov.length ≤ 24) {maxDataSize : ℤ}
    (hmax : 1 ≤ maxDataSize) (hint : maxDataSize < 2 ^ 31) :
    ∃ ps, Delivers (fun σ send => mpeg4Send maxDataSize timestamp σ send iov) ps ∧
      Tiles maxDataSize ps iov.flatten := by
  obtain ⟨c, rfl⟩ := Int.eq_ofNat_of_zero_le (show 0 ≤ maxDataSize by omega)
  obtain ⟨ps, -, hdelivers, htiles⟩ := @mpeg4SendLoop_spec c timestamp (by omega) (by omega)
    (2 * iov.flatten.length + iov.length + 2) iov [] 0 c (fun _ _ => Nat.zero_le _)
    (by
      unfold mpeg4Steps
      split_ifs <;> omega)
    (by simpa using hiov) (by simp)
  exact ⟨ps, hdelivers, by simpa using htiles⟩

/-- Four elements, one of them empty, in packets of three bytes. -/
theorem mpeg4_tiles_four :
    ∃ ps, Delivers (fun σ send => mpeg4Send 3 90 σ send [[1, 2, 3], [], [4, 5, 6, 7], [8]]) ps ∧
      Tiles 3 ps [1, 2, 3, 4, 5, 6, 7, 8] :=
  mpeg4_tiles 90 [[1, 2, 3], [], [4, 5, 6, 7], [8]] (by decide) (by decide) (by decide)

end Spook
