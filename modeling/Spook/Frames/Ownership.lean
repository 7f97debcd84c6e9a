import Spook.Frames.Run

set_option relaxedAutoImplicit false
set_option autoImplicit false

/-!
# Whose data a frame has

The data of a frame that a capture callback filled was allocated for it. A clone shares the data
of its original, and a frame of an audio ring points into the ring, but `unref_frame` frees the
data of every frame.

## Main definitions

* `Spook.FrameStore.Valid` — a pointer to as many bytes as a frame is long.
* `Spook.Owned` — whose data the frames have.
* `Spook.Owning` — the calls that release no borrowed data.

## Main results

* `Spook.frame_data` — in every run of such calls the data of every referenced frame is there, and
  what is freed was allocated for the frame, is freed once, and is the data of no other frame.
-/

namespace Spook

variable {n : ℕ} {s s' : FrameStore} {L : List ℕ} {O O' : Finset ℕ} {R : List ℕ}
  {rank : ℕ → ℕ} {f : ℕ}

/-- The pointer is to a block that is not freed, with room for the length of the frame. -/
def FrameStore.Valid (s : FrameStore) (f : ℕ) (p : Ptr) : Prop :=
  ∃ b, s.blocks[p.block]? = some b ∧ b.live = true ∧
    p.offset + (s.frames f).length.toNat ≤ b.size

/-- Whose data the frames `O` have: a clone has that of its original, and any other frame has data
of a ring or a block of its own. -/
structure Owned (O : Finset ℕ) (s : FrameStore) : Prop where
  valid : ∀ f ∈ O, ∀ p, (s.frames f).d = some p → s.Valid f p
  own : ∀ f ∈ O, (s.frames f).destructor = none → ∀ p, (s.frames f).d = some p →
    (∃ ring ∈ s.rings, ring.buf = p.block) ∨
      p.offset = 0 ∧ ∀ b, s.blocks[p.block]? = some b → b.frame = some f
  clone : ∀ f ∈ O, ∀ o, (s.frames f).destructor = some o →
    (s.frames f).d = (s.frames o).d ∧ (s.frames f).length = (s.frames o).length
  rings : ∀ ring ∈ s.rings, ∃ b, s.blocks[ring.buf]? = some b ∧ b.live = true ∧
    b.frame = none ∧ b.size = ring.buflen

namespace Owned

/-- Frames that are no longer referenced are left out, and counts change. -/
theorem shrink (h : Owned O s) (hsub : O' ⊆ O)
    (horig : ∀ g ∈ O', ∀ o, (s.frames g).destructor = some o → o ∈ O')
    (hsame : ∀ g ∈ O', s'.frames g = (s.frames g).setCount (s'.frames g).refCount)
    (hblocks : s'.blocks = s.blocks) (hrings : s'.rings = s.rings) : Owned O' s' := by
  have hd : ∀ g ∈ O', (s'.frames g).d = (s.frames g).d := by
    intro g hg
    rw [hsame g hg]
    rfl
  have hdest : ∀ g ∈ O', (s'.frames g).destructor = (s.frames g).destructor := by
    intro g hg
    rw [hsame g hg]
    rfl
  have hlen : ∀ g ∈ O', (s'.frames g).length = (s.frames g).length := by
    intro g hg
    rw [hsame g hg]
    rfl
  refine ⟨fun g hg p hp => ?_, fun g hg hnone p hp => ?_, fun g hg o ho => ?_, ?_⟩
  · rw [hd g hg] at hp
    unfold FrameStore.Valid
    rw [hblocks, hlen g hg]
    exact h.valid g (hsub hg) p hp
  · rw [hd g hg] at hp
    rw [hdest g hg] at hnone
    rw [hblocks, hrings]
    exact h.own g (hsub hg) hnone p hp
  · rw [hdest g hg] at ho
    have hoO := horig g hg o ho
    rw [hd g hg, hd o hoO, hlen g hg, hlen o hoO]
    exact h.clone g (hsub hg) o ho
  · rw [hblocks, hrings]
    exact h.rings

/-- A block that was allocated for a frame is the data of that frame and of its clones only. -/
theorem sole (h : Owned O s) (ha : Accounts s O R rank) {b : ℕ} {B : Block}
    (hb : s.blocks[b]? = some B) (hB : B.frame = some f) {g : ℕ} (hg : g ∈ O) {p : Ptr}
    (hp : (s.frames g).d = some p) (hblock : p.block = b) :
    g = f ∨ ∃ c ∈ O, (s.frames c).destructor = some f := by
  -- by induction along the originals, which have lower ranks
  induction hk : rank g using Nat.strong_induction_on generalizing g with
  | _ k ih =>
    rcases hd : (s.frames g).destructor with _ | o
    · left
      rcases h.own g hg hd p hp with ⟨ring, hring, hbuf⟩ | ⟨-, hframe⟩
      · obtain ⟨B', hB', -, hnone, -⟩ := h.rings ring hring
        rw [hbuf, hblock, hb] at hB'
        obtain rfl := Option.some.inj hB'
        rw [hB] at hnone
        cases hnone
      · have hf := hframe B (hblock ▸ hb)
        rw [hB] at hf
        exact (Option.some.inj hf).symm
    · right
      obtain ⟨hoO, hrank⟩ := ha.orig g hg o hd
      have hpo : (s.frames o).d = some p := (h.clone g hg o hd).1 ▸ hp
      rcases ih (rank o) (hk ▸ hrank) hoO hpo rfl with rfl | hclone
      · exact ⟨g, hg, hd⟩
      · exact hclone

end Owned

/-! ## Releases -/

/-- Data in a block that is there can be freed. -/
theorem wp_freeData_live {p : Ptr} {b : Block} (hp : (s.frames f).d = some p)
    (hb : s.blocks[p.block]? = some b) (hlive : b.live = true) (hoff : p.offset = 0) :
    wp (freeData f)
      (fun _ s' => s' = { s with blocks := s.blocks.set p.block { b with live := false },
                                 log := s.log ++ [FrameEvent.freed f p] }.withFrame f
        { s.frames f with d := none, length := 0 }) (fun _ => False) s := by
  unfold freeData
  rw [wp_bind, wp_getFrame]
  simp only [hp]
  unfold free
  rw [wp_bind, wp_bind, wp_get, wp_bind, wp_found]
  refine ⟨fun b' hb' => ?_, fun hnone => ?_⟩
  · obtain rfl := Option.some.inj (hb.symm.trans hb')
    rw [wp_ite]
    exact ⟨fun _ => rfl, fun hnot => absurd ⟨hlive, hoff⟩ hnot⟩
  · rw [hb] at hnone
    cases hnone

/-- What a release did to the blocks: nothing, or it freed the data of the frame, which was
allocated for it and is the data of no frame that is still referenced. -/
inductive FreedBy (f : ℕ) (s s' : FrameStore) (O' : Finset ℕ) : Prop
  | nothing : s'.blocks = s.blocks → s'.log = s.log → FreedBy f s s' O'
  | data {p : Ptr} {b : Block} : s.blocks[p.block]? = some b → b.live = true → p.offset = 0 →
      b.frame = some f → s'.blocks = s.blocks.set p.block { b with live := false } →
      s'.log = s.log ++ [.freed f p] →
      (∀ g ∈ O', ∀ q, (s'.frames g).d = some q → q.block ≠ p.block) → FreedBy f s s' O'

/-- The originals of referenced frames after a release. -/
theorem Heaped.orig_same {D : Finset ℕ} {R' : List ℕ} {L' : List ℕ}
    (h : Heaped n D R' s' L' O' rank)
    (hsame : ∀ g ∈ O', s'.frames g = (s.frames g).setCount (s'.frames g).refCount) :
    ∀ g ∈ O', ∀ o, (s.frames g).destructor = some o → o ∈ O' := by
  intro g hg o ho
  refine (h.accounts.orig g hg o ?_).1
  rw [hsame g hg]
  exact ho

/-- The last reference to a frame with data of its own is released.

**Proof sketch.** The frame has no clones, since its count is one. So its block, which was allocated
for it, is the data of no other frame (`Owned.sole`), and of no ring; it is there, and can be freed.
Every other frame keeps its data. -/
theorem wp_unrefFrame_own {fuel : ℕ} (h : Heaped n ∅ R s L O rank) (hown : Owned O s)
    (hf : f ∈ R) (hone : (s.frames f).refCount = 1) (hnone : (s.frames f).destructor = none)
    {p : Ptr} (hp : (s.frames f).d = some p) (hring : ∀ ring ∈ s.rings, ring.buf ≠ p.block) :
    wp (unrefFrame (fuel + 1) f)
      (fun _ s' => ∃ L', Heaped n ∅ (R.erase f) s' L' (O.erase f) rank ∧ Owned (O.erase f) s' ∧
        (∀ g ∈ O.erase f, s'.frames g = s.frames g) ∧ s'.rings = s.rings ∧
        FreedBy f s s' (O.erase f)) (fun _ => False) s := by
  have hfO := h.accounts.refs f hf
  obtain ⟨b, hb, hlive, hroom⟩ := hown.valid f hfO p hp
  have hmine : p.offset = 0 ∧ b.frame = some f := by
    rcases hown.own f hfO hnone p hp with ⟨ring, hmem, hbuf⟩ | ⟨hoff, hframe⟩
    · exact absurd hbuf (hring ring hmem)
    · exact ⟨hoff, hframe b hb⟩
  have hclones : s.clones O f = 0 := by
    have hcount := h.accounts.count f hfO
    have hpos : 0 < R.count f := List.count_pos_iff.2 hf
    omega
  have hother : ∀ g ∈ O.erase f, ∀ q, (s.frames g).d = some q → q.block ≠ p.block := by
    intro g hg q hq hblock
    rcases hown.sole h.accounts hb hmine.2 (Finset.mem_of_mem_erase hg) hq hblock with
      rfl | ⟨c, hc, hd⟩
    · exact Finset.notMem_erase g O hg
    · exact FrameStore.ne_of_clones hclones hc hd
  have hleave := h.leave hf hone _ (h.free.setFrames _ _ _ _)
    fun g hg => s.withFrame_of_ne hg ((s.frames f).setCount ((s.frames f).refCount - 1))
  rw [hnone] at hleave
  unfold unrefFrame
  rw [wp_bind, wp_getFrame, wp_bind, wp_setFrame, wp_ite]
  refine ⟨fun hr => by omega, fun _ => ?_⟩
  simp only [hnone]
  refine wp.seq (wp_freeData_live (by simpa using hp) hb hlive hmine.1) fun _ s₁ hs₁ => ?_
  subst hs₁
  have hfreed := (hleave.memory (s.blocks.set p.block { b with live := false }) s.rings
    (s.log ++ [.freed f p])).withFrame f
      { (s.withFrame f ((s.frames f).setCount ((s.frames f).refCount - 1))).frames f with
        d := none, length := 0 } rfl rfl
  refine (hfreed.back (Finset.notMem_empty f)).imp fun _ s' hs' => ?_
  obtain ⟨hheap, hsame, hrings, hblocks, hlog⟩ := hs'
  have hframes : ∀ g ∈ O.erase f, s'.frames g = s.frames g := by
    intro g hg
    have hgf := Finset.ne_of_mem_erase hg
    rw [hsame g hgf, FrameStore.withFrame_of_ne _ hgf]
    exact FrameStore.withFrame_of_ne _ hgf _
  have hset : s'.blocks = s.blocks.set p.block { b with live := false } := hblocks
  have hringsame : s'.rings = s.rings := hrings
  refine ⟨_, hheap, ⟨fun g hg q hq => ?_, fun g hg hd q hq => ?_, fun g hg o ho => ?_,
    fun ring hmem => ?_⟩, hframes, hrings, .data hb hlive hmine.1 hmine.2 hblocks hlog
      fun g hg q hq => ?_⟩
  · rw [hframes g hg] at hq
    obtain ⟨b', hb', hlive', hroom'⟩ := hown.valid g (Finset.mem_of_mem_erase hg) q hq
    refine ⟨b', ?_, hlive', by rwa [hframes g hg]⟩
    rw [hset, List.getElem?_set_ne (Ne.symm (hother g hg q hq))]
    exact hb'
  · rw [hframes g hg] at hd hq
    rw [hset, hringsame, List.getElem?_set_ne (Ne.symm (hother g hg q hq))]
    exact hown.own g (Finset.mem_of_mem_erase hg) hd q hq
  · have hoO := (hheap.accounts.orig g hg o ho).1
    rw [hframes g hg] at ho
    rw [hframes g hg, hframes o hoO]
    exact hown.clone g (Finset.mem_of_mem_erase hg) o ho
  · rw [hringsame] at hmem
    rw [hset, List.getElem?_set_ne (Ne.symm (hring ring hmem))]
    exact hown.rings ring hmem
  · rw [hframes g hg] at hq
    exact hother g hg q hq

/-- A release of a frame that has no borrowed data if the reference is the last one. -/
theorem wp_unrefFrame_owned (h : Heaped n ∅ R s L O rank) (hown : Owned O s) (hf : f ∈ R)
    (hlast : (s.frames f).refCount = 1 → ∀ p, (s.frames f).d = some p →
      (s.frames f).destructor = none ∧ ∀ ring ∈ s.rings, ring.buf ≠ p.block) :
    wp (unrefFrame s.nSlots f)
      (fun _ s' => ∃ L' O', Heaped n ∅ (R.erase f) s' L' O' rank ∧ Owned O' s' ∧ O' ⊆ O ∧
        (∀ g ∈ O', s'.frames g = (s.frames g).setCount (s'.frames g).refCount) ∧
        s'.rings = s.rings ∧ FreedBy f s s' O') (fun _ => False) s := by
  have hfO := h.accounts.refs f hf
  rcases hp : (s.frames f).d with _ | p
  · refine (wp_unrefFrame (C := fun g => (s.frames g).d = none) h hf (h.fuel _) hp
      fun g hg hCg o ho => ?_).mono (fun _ s' hs' => ?_) fun e he => ?_
    · exact (hown.clone g hg o ho).1 ▸ hCg
    · obtain ⟨L', O', hheap, hrel⟩ := hs'
      obtain ⟨hblocks, hlog⟩ := hrel.quiet fun _ _ hCg => hCg
      exact ⟨L', O', hheap, hown.shrink hrel.sub (hheap.orig_same hrel.same) hrel.same hblocks
        hrel.rings, hrel.sub, hrel.same, hrel.rings, .nothing hblocks hlog⟩
    · obtain ⟨-, g, -, hCg, hdata⟩ := he
      exact absurd hCg hdata
  · have hpos := h.accounts.pos f hfO
    have hfuel : ∃ fuel, s.nSlots = fuel + 1 := by
      refine Nat.exists_eq_succ_of_ne_zero fun h0 => ?_
      have hlt := (h.below f hfO).1
      rw [← h.free.nSlots, h0] at hlt
      exact absurd hlt (Nat.not_lt_zero f)
    obtain ⟨fuel, hfuel⟩ := hfuel
    rw [hfuel]
    by_cases hone : (s.frames f).refCount = 1
    · obtain ⟨hnone, hring⟩ := hlast hone p hp
      refine (wp_unrefFrame_own h hown hf hone hnone hp hring).imp fun _ s' hs' => ?_
      obtain ⟨L', hheap, hown', hframes, hrings, hfreed⟩ := hs'
      refine ⟨L', _, hheap, hown', Finset.erase_subset f O, fun g hg => ?_, hrings, hfreed⟩
      rw [hframes g hg]
      rfl
    · unfold unrefFrame
      rw [wp_bind, wp_getFrame, wp_bind, wp_setFrame, wp_ite]
      refine ⟨fun hr => ?_, fun hr => by omega⟩
      have hsame : ∀ g ∈ O, (s.withFrame f ((s.frames f).setCount
          ((s.frames f).refCount - 1))).frames g = (s.frames g).setCount
            ((s.withFrame f ((s.frames f).setCount ((s.frames f).refCount - 1))).frames
              g).refCount := by
        intro g _
        by_cases hgf : g = f <;> simp [hgf]
      have hheap := h.decr hf hr
      exact ⟨L, O, hheap, hown.shrink (Finset.Subset.refl O) (hheap.orig_same hsame) hsame rfl rfl,
        Finset.Subset.refl O, hsame, rfl, .nothing rfl rfl⟩

/-! ## New frames and new data -/

namespace Owned

/-- More blocks. -/
theorem grow (h : Owned O s) (blocks : List Block) (log : List FrameEvent)
    (hkeep : ∀ (i : ℕ) (b : Block), s.blocks[i]? = some b → blocks[i]? = some b) :
    Owned O { s with blocks, log } := by
  refine ⟨fun f hf p hp => ?_, fun f hf hnone p hp => ?_, h.clone, fun ring hring => ?_⟩
  · obtain ⟨b, hb, hlive, hroom⟩ := h.valid f hf p hp
    exact ⟨b, hkeep _ b hb, hlive, hroom⟩
  · rcases h.own f hf hnone p hp with hring | ⟨hoff, hframe⟩
    · exact .inl hring
    · obtain ⟨b, hb, -, -⟩ := h.valid f hf p hp
      refine .inr ⟨hoff, fun b' hb' => ?_⟩
      obtain rfl := Option.some.inj ((hkeep _ b hb).symm.trans hb')
      exact hframe b hb
  · obtain ⟨b, hb, hrest⟩ := h.rings ring hring
    exact ⟨b, hkeep _ b hb, hrest⟩

/-- One more frame, with data of a ring or of its own, or as a clone. -/
theorem add (h : Owned O s) (hf : f ∉ O)
    (horig : ∀ g ∈ O, ∀ o, (s.frames g).destructor = some o → o ∈ O)
    (hsame : ∀ g ∈ O, s'.frames g = (s.frames g).setCount (s'.frames g).refCount)
    (hblocks : s'.blocks = s.blocks) (hrings : s'.rings = s.rings)
    (hvalid : ∀ p, (s'.frames f).d = some p → s'.Valid f p)
    (hown : (s'.frames f).destructor = none → ∀ p, (s'.frames f).d = some p →
      (∃ ring ∈ s'.rings, ring.buf = p.block) ∨
        p.offset = 0 ∧ ∀ b, s'.blocks[p.block]? = some b → b.frame = some f)
    (hclone : ∀ o, (s'.frames f).destructor = some o →
      (s'.frames f).d = (s'.frames o).d ∧ (s'.frames f).length = (s'.frames o).length) :
    Owned (insert f O) s' := by
  have hold := h.shrink (Finset.Subset.refl O) horig hsame hblocks hrings
  refine ⟨fun g hg => ?_, fun g hg => ?_, fun g hg => ?_, hold.rings⟩
  all_goals rcases Finset.mem_insert.1 hg with rfl | hg
  · exact hvalid
  · exact hold.valid g hg
  · exact hown
  · exact hold.own g hg
  · exact hclone
  · exact hold.clone g hg

/-- A frame that `new_frame` returned. -/
theorem popped (h : Owned O s) (hf : f ∉ O)
    (horig : ∀ g ∈ O, ∀ o, (s.frames g).destructor = some o → o ∈ O) :
    Owned (insert f O) (s.popped f) := by
  have hpf : (s.popped f).frames f = (s.frames f).fresh := Function.update_self ..
  refine h.add hf horig (fun g hg => ?_) rfl rfl (fun p hp => ?_) (fun _ p hp => ?_)
    fun o ho => ?_
  · have hgf : g ≠ f := fun heq => hf (heq ▸ hg)
    have hpg : (s.popped f).frames g = s.frames g := Function.update_of_ne hgf ..
    rw [hpg]
    rfl
  all_goals
    rw [hpf] at *
    simp_all [DataFrame.fresh]

end Owned

/-- Two multiples of a number, one below the other, are that number apart. -/
theorem add_le_of_dvd {d a b : ℕ} (ha : d ∣ a) (hb : d ∣ b) (hlt : a < b) : a + d ≤ b := by
  obtain ⟨x, rfl⟩ := ha
  obtain ⟨y, rfl⟩ := hb
  have hxy : x < y := Nat.lt_of_mul_lt_mul_left hlt
  calc d * x + d = d * (x + 1) := (Nat.mul_succ d x).symm
    _ ≤ d * y := Nat.mul_le_mul_left d hxy

/-- A ring whose buffer holds a number of frames of whole samples. -/
structure AudioRing.Fits (ring : AudioRing) : Prop where
  framelen : 0 < ring.framelen
  sample : 0 < ring.sampleSize
  whole : ring.sampleSize ∣ ring.framelen
  frames : ring.framelen ∣ ring.buflen
  ir : ring.framelen ∣ ring.ir ∧ ring.ir < ring.buflen
  iw : ring.sampleSize ∣ ring.iw ∧ ring.iw < ring.buflen

namespace AudioRing.Fits

variable {ring : AudioRing}

/-- The rate adjustment changes the counter only. -/
theorem adjust (h : ring.Fits) :
    ring.adjust.1.Fits ∧ ring.adjust.1.buf = ring.buf ∧ ring.adjust.1.buflen = ring.buflen := by
  unfold AudioRing.adjust
  split_ifs <;> exact ⟨⟨h.framelen, h.sample, h.whole, h.frames, h.ir, h.iw⟩, rfl, rfl⟩

/-- A sample fits into the buffer. -/
theorem wp_store (h : ring.Fits) (s : FrameStore) :
    wp ring.store (fun ring' s' => (ring'.Fits ∧ ring'.buf = ring.buf ∧
      ring'.buflen = ring.buflen) ∧ s' = s) (fun _ => False) s := by
  have hle := add_le_of_dvd h.iw.1 (Nat.dvd_trans h.whole h.frames) h.iw.2
  have hpos : 0 < ring.buflen := Nat.zero_lt_of_lt h.iw.2
  unfold AudioRing.store
  rw [wp_ite]
  refine ⟨fun hlt => by omega, fun _ => ⟨⟨⟨h.framelen, h.sample, h.whole, h.frames, h.ir, ?_⟩,
    rfl, rfl⟩, rfl⟩⟩
  simp only
  split_ifs with hend
  · exact ⟨⟨0, rfl⟩, hpos⟩
  · exact ⟨Nat.dvd_add h.iw.1 (Nat.dvd_refl _), by omega⟩

/-- The frame at `i_r` lies in the buffer. -/
theorem room (h : ring.Fits) : ring.ir + ring.framelen ≤ ring.buflen :=
  add_le_of_dvd h.ir.1 h.frames h.ir.2

/-- The next frame. -/
theorem next (h : ring.Fits) :
    { ring with ir := if ring.ir + ring.framelen = ring.buflen then 0
                      else ring.ir + ring.framelen }.Fits := by
  have hroom := h.room
  have hpos : 0 < ring.buflen := Nat.zero_lt_of_lt h.ir.2
  refine ⟨h.framelen, h.sample, h.whole, h.frames, ?_, h.iw⟩
  simp only
  split_ifs with hend
  · exact ⟨⟨0, rfl⟩, hpos⟩
  · exact ⟨Nat.dvd_add h.ir.1 (Nat.dvd_refl _), by omega⟩

end AudioRing.Fits

/-! ## Calls that release no borrowed data -/

/-- The frames that wait in exchangers: there is one reference to each, and none is a clone or has
one. -/
structure Pooled (R pool : List ℕ) (O : Finset ℕ) (s : FrameStore) : Prop where
  single : ∀ f ∈ pool, R.count f = 1
  plain : ∀ f ∈ pool, (s.frames f).destructor = none
  uncloned : ∀ f ∈ pool, ∀ g ∈ O, (s.frames g).destructor ≠ some f

namespace Pooled

variable {pool : List ℕ} {R' : List ℕ}

/-- There is a reference to a frame that waits. -/
theorem mem (h : Pooled R pool O s) (hf : f ∈ pool) : f ∈ R := by
  apply List.count_pos_iff.1
  rw [h.single f hf]
  exact Nat.one_pos

/-- The destructors and the references to frames that wait are what they were. -/
theorem step (h : Pooled R pool O s) (hR : ∀ f ∈ pool, R'.count f = R.count f)
    (hpool : ∀ f ∈ pool, (s'.frames f).destructor = (s.frames f).destructor)
    (hO : ∀ g ∈ O', ∀ f ∈ pool, (s'.frames g).destructor ≠ some f) : Pooled R' pool O' s' := by
  refine ⟨fun f hf => ?_, fun f hf => ?_, fun f hf g hg => hO g hg f hf⟩
  · rw [hR f hf]
    exact h.single f hf
  · rw [hpool f hf]
    exact h.plain f hf

/-- A frame that is held does not wait. -/
theorem ne_held {t : FrameState} (h : Pooled t.refs t.pool O s) (hf : t.Holds f) : f ∉ t.pool := by
  intro hmem
  have hone := h.single f hmem
  have hpos : 0 < t.pool.count f := List.count_pos_iff.2 hmem
  unfold FrameState.Holds at hf
  omega

end Pooled

/-- The invariant: the heap, whose data the frames have, and rings whose frames fit. -/
def DataKept (n : ℕ) (R pool : List ℕ) (s : FrameStore) : Prop :=
  ∃ L O rank, Heaped n ∅ R s L O rank ∧ Owned O s ∧ Pooled R pool O s ∧
    ∀ ring ∈ s.rings, ring.Fits

/-- No borrowed data is released: the last reference to a frame is released only if the frame is no
clone and has no data of a ring, `convert_uyvy_to_rgb24` is not called, and the frames of a ring
are never dropped. A ring that is made has a buffer for a frame of whole samples: the product that
is its size, an `int`, is at least a frame, or so far below zero that no ring is made. -/
def Owning (s : FrameState) : FrameAct → Prop
  | .unref f => (s.store.frames f).refCount = 1 → ∀ p, (s.store.frames f).d = some p →
      (s.store.frames f).destructor = none ∧ ∀ ring ∈ s.store.rings, ring.buf ≠ p.block
  | .convert _ => False
  | .newRing sampleSize sampleRate framelen => 0 < sampleSize ∧ sampleSize ∣ framelen ∧
      0 < framelen ∧ framelen ≤ (ringBytes sampleSize sampleRate).natAbs
  | .ringInput k _ samples => k < s.store.rings.length ∧ ∀ queueOk ∈ samples, queueOk = true
  | .new | .clone _ | .ref _ | .exchange | .capture _ _ _ _ => True

instance (s : FrameState) : (a : FrameAct) → Decidable (Owning s a)
  | .unref f => inferInstanceAs (Decidable ((s.store.frames f).refCount = 1 →
      ∀ p ∈ (s.store.frames f).d, (s.store.frames f).destructor = none ∧
        ∀ ring ∈ s.store.rings, ring.buf ≠ p.block))
  | .convert _ => isFalse id
  | .newRing sampleSize sampleRate framelen => inferInstanceAs (Decidable (0 < sampleSize ∧
      sampleSize ∣ framelen ∧ 0 < framelen ∧ framelen ≤ (ringBytes sampleSize sampleRate).natAbs))
  | .ringInput k _ samples => inferInstanceAs (Decidable (k < s.store.rings.length ∧
      ∀ queueOk ∈ samples, queueOk = true))
  | .new | .clone _ | .ref _ | .exchange | .capture _ _ _ _ => isTrue trivial

/-- The block of data that was freed. -/
def FrameEvent.block : FrameEvent → Option ℕ
  | .freed _ p => some p.block
  | .taken _ | .delivered _ => none

/-- What `unref_frame` freed as the data of a frame was the whole of a block that was allocated for
it, and is the data of no frame that is still referenced. -/
structure FreedOwn (s s' : FrameState) (f : ℕ) (p : Ptr) : Prop where
  start : p.offset = 0
  block : ∃ b, s.store.blocks[p.block]? = some b ∧ b.live = true ∧ b.frame = some f
  dead : ∃ b, s'.store.blocks[p.block]? = some b ∧ b.live = false
  other : ∀ g, Referenced s' g → ∀ q, (s'.store.frames g).d = some q → q.block ≠ p.block

/-- What a call does with data. -/
structure DataCall (n : ℕ) (s s' : FrameState) (o : List FrameEvent) : Prop where
  kept : DataKept n s'.refs s'.pool s'.store
  dead : ∀ (i : ℕ) (b : Block), s.store.blocks[i]? = some b → b.live = false →
    ∃ b', s'.store.blocks[i]? = some b' ∧ b'.live = false
  freed : ∀ f p, .freed f p ∈ o → FreedOwn s s' f p
  once : (o.filterMap FrameEvent.block).Nodup
  delivered : ∀ f, .delivered f ∈ o → ∃ p, (s'.store.frames f).d = some p ∧ s'.store.Valid f p

/-- A call that frees nothing. -/
theorem DataCall.quiet {s s' : FrameState} {o : List FrameEvent}
    (hkept : DataKept n s'.refs s'.pool s'.store)
    (hblocks : ∀ (i : ℕ) (b : Block), s.store.blocks[i]? = some b → s'.store.blocks[i]? = some b)
    (hfreed : ∀ e ∈ o, e.block = none)
    (hdelivered : ∀ f, .delivered f ∈ o → f ∈ s'.refs ∧ ∃ p, (s'.store.frames f).d = some p) :
    DataCall n s s' o := by
  refine ⟨hkept, fun i b hb hdead => ⟨b, hblocks i b hb, hdead⟩, fun f p hmem => ?_, ?_,
    fun f hmem => ?_⟩
  · cases hfreed _ hmem
  · rw [List.filterMap_eq_nil_iff.2 hfreed]
    exact List.nodup_nil
  · obtain ⟨L, O, rank, hheap, hown, -⟩ := hkept
    obtain ⟨hf, p, hp⟩ := hdelivered f hmem
    exact ⟨p, hp, hown.valid f (hheap.accounts.refs f hf) p hp⟩

section Calls

variable {pool : List ℕ}

/-- What is recorded of the calls does not matter. -/
theorem DataKept.relog (h : DataKept n R pool s) (log : List FrameEvent) :
    DataKept n R pool { s with log } := by
  obtain ⟨L, O, rank, hheap, hown, hpool, hfits⟩ := h
  exact ⟨L, O, rank, hheap.memory _ _ _, hown.grow _ _ fun _ _ hb => hb,
    ⟨hpool.single, hpool.plain, hpool.uncloned⟩, hfits⟩

/-- A frame that `new_frame` takes can be put into an exchanger, or not. -/
theorem Pooled.popped (hheap : Heaped n ∅ R s (f :: L) O rank) (hpool : Pooled R pool O s) :
    Pooled (f :: R) (f :: pool) (insert f O) (s.popped f) ∧
      Pooled (f :: R) pool (insert f O) (s.popped f) := by
  have hfO := ((hheap.mem f).1 List.mem_cons_self).2.1
  have hfR : f ∉ R := fun hmem => hfO (hheap.accounts.refs f hmem)
  have horig : ∀ g ∈ O, ∀ o, (s.frames g).destructor = some o → o ∈ O := fun g hg o ho =>
    (hheap.accounts.orig g hg o ho).1
  have hpf : (s.popped f).frames f = (s.frames f).fresh := Function.update_self ..
  have hpg : ∀ g, g ≠ f → (s.popped f).frames g = s.frames g := fun g hg =>
    Function.update_of_ne hg ..
  have hdest : ∀ g ∈ insert f O, ∀ o, ((s.popped f).frames g).destructor = some o → o ∈ O := by
    intro g hg o ho
    rcases Finset.mem_insert.1 hg with rfl | hg
    · rw [hpf] at ho
      cases ho
    · rw [hpg g fun heq => hfO (heq ▸ hg)] at ho
      exact horig g hg o ho
  have hold : Pooled (f :: R) pool (insert f O) (s.popped f) := by
    have hgf : ∀ g ∈ pool, f ≠ g := fun g hg heq => hfR (heq ▸ hpool.mem hg)
    refine hpool.step (fun g hg => List.count_cons_of_ne (hgf g hg)) (fun g hg => ?_)
      fun g hg p hp hd => ?_
    · rw [hpg g (hgf g hg).symm]
    · rcases Finset.mem_insert.1 hg with rfl | hg
      · rw [hpf] at hd
        cases hd
      · rw [hpg g fun heq => hfO (heq ▸ hg)] at hd
        exact hpool.uncloned p hp g hg hd
  refine ⟨⟨fun g hg => ?_, fun g hg => ?_, fun g hg k hk hd => ?_⟩, hold⟩
  all_goals rcases List.mem_cons.1 hg with rfl | hg
  · rw [List.count_cons_self, List.count_eq_zero.2 hfR]
  · exact hold.single g hg
  · rw [hpf]
    rfl
  · exact hold.plain g hg
  · exact hfO (hdest k hk _ hd)
  · exact hold.uncloned g hg k hk hd

/-- A clone shares the data of its original. -/
theorem Owned.cloned (hheap : Heaped n ∅ R s (f :: L) O rank) (hown : Owned O s) {orig : ℕ}
    (horig : orig ∈ O) : Owned (insert f O) (s.cloned f orig) := by
  have hfO := ((hheap.mem f).1 List.mem_cons_self).2.1
  have hof : orig ≠ f := fun heq => hfO (heq ▸ horig)
  have hd : ((s.cloned f orig).frames f).d = (s.frames orig).d := by
    simp [FrameStore.cloned, hof.symm]
  have hlen : ((s.cloned f orig).frames f).length = (s.frames orig).length := by
    simp [FrameStore.cloned, hof.symm]
  have hdest : ((s.cloned f orig).frames f).destructor = some orig := by
    simp [FrameStore.cloned, hof.symm]
  have hsame : ∀ g ∈ O, (s.cloned f orig).frames g =
      (s.frames g).setCount ((s.cloned f orig).frames g).refCount := by
    intro g hg
    have hgf : g ≠ f := fun heq => hfO (heq ▸ hg)
    have hpg : (s.popped f).frames g = s.frames g := Function.update_of_ne hgf ..
    by_cases hgo : g = orig
    · subst hgo
      simp [FrameStore.cloned]
    · simp [FrameStore.cloned, hgo, hgf, hpg]
  have horigframe := hsame orig horig
  refine hown.add hfO (fun g hg o ho => (hheap.accounts.orig g hg o ho).1) hsame rfl rfl
    (fun p hp => ?_) (fun hnone => ?_) fun o ho => ?_
  · rw [hd] at hp
    unfold FrameStore.Valid
    rw [hlen]
    exact hown.valid orig horig p hp
  · rw [hdest] at hnone
    cases hnone
  · obtain rfl := Option.some.inj (hdest.symm.trans ho)
    rw [hd, hlen, horigframe]
    exact ⟨rfl, rfl⟩

/-- A clone of a frame that does not wait. -/
theorem DataKept.cloned (hheap : Heaped n ∅ R s (f :: L) O rank) (hown : Owned O s)
    (hpool : Pooled R pool O s) (hfits : ∀ ring ∈ s.rings, ring.Fits) {orig : ℕ}
    (horig : orig ∈ O) (hnot : orig ∉ pool) {rank' : ℕ → ℕ}
    (hnew : Heaped n ∅ (f :: R) (s.cloned f orig) L (insert f O) rank') :
    DataKept n (f :: R) pool (s.cloned f orig) := by
  have hfO := ((hheap.mem f).1 List.mem_cons_self).2.1
  have hfR : f ∉ R := fun hmem => hfO (hheap.accounts.refs f hmem)
  have hof : orig ≠ f := fun heq => hfO (heq ▸ horig)
  have hdest : ∀ g, g ≠ f →
      ((s.cloned f orig).frames g).destructor = (s.frames g).destructor := by
    intro g hgf
    have hpg : (s.popped f).frames g = s.frames g := Function.update_of_ne hgf ..
    by_cases hgo : g = orig
    · subst hgo
      simp [FrameStore.cloned]
    · simp [FrameStore.cloned, hgo, hgf, hpg]
  have hgf : ∀ g ∈ pool, g ≠ f := fun g hg heq => hfR (heq ▸ hpool.mem hg)
  refine ⟨L, _, _, hnew, hown.cloned hheap horig, hpool.step
    (fun g hg => List.count_cons_of_ne (hgf g hg).symm) (fun g hg => hdest g (hgf g hg))
    (fun g hg p hp hd => ?_), hfits⟩
  rcases Finset.mem_insert.1 hg with rfl | hg
  · have hsome : ((s.cloned g orig).frames g).destructor = some orig := by
      simp [FrameStore.cloned, hof.symm]
    obtain rfl := Option.some.inj (hsome.symm.trans hd)
    exact hnot hp
  · rw [hdest g fun heq => hfO (heq ▸ hg)] at hd
    exact hpool.uncloned p hp g hg hd

/-- Frames that are still referenced change in their count only, and none of those that wait gets
or loses a reference. -/
theorem DataKept.recount (hown : Owned O' s') (hheap : Heaped n ∅ R s' L O' rank)
    {R' : List ℕ} (hpool : Pooled R' pool O s) (hfits : ∀ ring ∈ s.rings, ring.Fits) (hsub : O' ⊆ O)
    (hsame : ∀ g ∈ O', s'.frames g = (s.frames g).setCount (s'.frames g).refCount)
    (hrings : s'.rings = s.rings) (hR : ∀ f ∈ pool, R.count f = R'.count f) :
    DataKept n R pool s' := by
  have hdest : ∀ g ∈ O', (s'.frames g).destructor = (s.frames g).destructor := by
    intro g hg
    rw [hsame g hg]
    rfl
  have hmem : ∀ g ∈ pool, g ∈ O' := by
    intro g hg
    apply hheap.accounts.refs
    apply List.count_pos_iff.1
    rw [hR g hg, hpool.single g hg]
    exact Nat.one_pos
  refine ⟨L, O', rank, hheap, hown, hpool.step hR (fun g hg => hdest g (hmem g hg))
    (fun g hg p hp => ?_), ?_⟩
  · rw [hdest g hg]
    exact hpool.uncloned p hp g (hsub hg)
  · rw [hrings]
    exact hfits

/-- The buffer that a callback allocates has room for the length that it stores. -/
theorem Input.callback_length (i : Input) (c : i.Chunk) (mallocOk : Bool) (frame : Frame) {size : ℕ}
    (h : i.buffer c mallocOk = some size) :
    (i.callback c mallocOk frame).1.length.toNat = size := by
  cases i with
  | video conf => exact Option.some.inj h
  | audio conf =>
    obtain ⟨codec, tick, len⟩ := c
    simp only [Input.buffer, Input.callback, getAudioChunk] at h ⊢
    cases codec with
    | pcm => exact Option.some.inj h
    | other => cases h
    | adpcm =>
      simp only at h ⊢
      split_ifs at h ⊢
      · exact Option.some.inj h
      · rw [← Option.some.inj h]
        simp [Nat.shiftLeft_eq]

/-- A frame that is no clone and has none gets other data. -/
theorem Owned.refill (h : Owned O s) (hf : f ∈ O)
    (horig : ∀ g ∈ O, ∀ o, (s.frames g).destructor = some o → o ∈ O)
    (huncloned : ∀ g ∈ O, (s.frames g).destructor ≠ some f) (frame : DataFrame)
    (hplain : frame.destructor = none) (blocks : List Block) (log : List FrameEvent)
    (hkeep : ∀ (i : ℕ) (b : Block), s.blocks[i]? = some b → blocks[i]? = some b)
    (hvalid : ∀ p, frame.d = some p → ∃ b, blocks[p.block]? = some b ∧ b.live = true ∧
      p.offset + frame.length.toNat ≤ b.size)
    (hdata : ∀ p, frame.d = some p → (∃ ring ∈ s.rings, ring.buf = p.block) ∨
      p.offset = 0 ∧ ∀ b, blocks[p.block]? = some b → b.frame = some f) :
    Owned O ({ s with blocks, log }.withFrame f frame) := by
  have hgrown := h.grow blocks log hkeep
  have horig' : ∀ g ∈ O.erase f, ∀ o, (s.frames g).destructor = some o → o ∈ O.erase f := by
    intro g hg o ho
    have hgO := Finset.mem_of_mem_erase hg
    exact Finset.mem_erase.2 ⟨fun heq => huncloned g hgO (heq ▸ ho), horig g hgO o ho⟩
  have hrest : Owned (O.erase f) { s with blocks, log } :=
    hgrown.shrink (Finset.erase_subset f O) horig' (fun g _ => rfl) rfl rfl
  rw [← Finset.insert_erase hf]
  refine hrest.add (Finset.notMem_erase f O) horig' (fun g hg => ?_) rfl rfl (fun p hp => ?_)
    (fun _ p hp => ?_) fun o ho => ?_
  · rw [FrameStore.withFrame_of_ne _ (Finset.ne_of_mem_erase hg)]
    rfl
  · rw [FrameStore.withFrame_self] at hp
    unfold FrameStore.Valid
    rw [FrameStore.withFrame_self]
    exact hvalid p hp
  · rw [FrameStore.withFrame_self] at hp
    exact hdata p hp
  · rw [FrameStore.withFrame_self, hplain] at ho
    cases ho

/-- A frame that is no clone and has none gets other data, between two calls. -/
theorem DataKept.refill (hheap : Heaped n ∅ R s L O rank) (hown : Owned O s)
    (hpool : Pooled R pool O s) (hfits : ∀ ring ∈ s.rings, ring.Fits) (hf : f ∈ O)
    (huncloned : ∀ g ∈ O, (s.frames g).destructor ≠ some f)
    (hplain : (s.frames f).destructor = none) (frame : DataFrame)
    (hdest : frame.destructor = (s.frames f).destructor)
    (hcount : frame.refCount = (s.frames f).refCount) (blocks : List Block)
    (log : List FrameEvent)
    (hkeep : ∀ (i : ℕ) (b : Block), s.blocks[i]? = some b → blocks[i]? = some b)
    (hvalid : ∀ p, frame.d = some p → ∃ b, blocks[p.block]? = some b ∧ b.live = true ∧
      p.offset + frame.length.toNat ≤ b.size)
    (hdata : ∀ p, frame.d = some p → (∃ ring ∈ s.rings, ring.buf = p.block) ∨
      p.offset = 0 ∧ ∀ b, blocks[p.block]? = some b → b.frame = some f) :
    DataKept n R pool ({ s with blocks, log }.withFrame f frame) := by
  have hsame : ∀ g, (({ s with blocks, log }.withFrame f frame).frames g).destructor =
      (s.frames g).destructor := by
    intro g
    by_cases hgf : g = f
    · subst hgf
      rw [FrameStore.withFrame_self, hdest]
    · rw [FrameStore.withFrame_of_ne _ hgf]
  refine ⟨L, O, rank, (hheap.memory _ _ _).withFrame f _ hdest hcount,
    hown.refill hf (fun g hg o ho => (hheap.accounts.orig g hg o ho).1) huncloned frame
      (hdest.trans hplain) blocks log hkeep hvalid hdata,
    hpool.step (fun _ _ => rfl) (fun g _ => hsame g) fun g hg p hp => ?_, hfits⟩
  rw [hsame g]
  exact hpool.uncloned p hp g hg

/-- A capture callback keeps what is known of the data, and what it delivers has data. -/
theorem wp_captureFrame_data (h : DataKept n R pool s) (hf : f ∈ pool) (i : Input) (c : i.Chunk)
    (mallocOk : Bool) :
    wp (captureFrame f i c mallocOk)
      (fun _ s' => DataKept n R pool s' ∧
        (∀ (i : ℕ) (b : Block), s.blocks[i]? = some b → s'.blocks[i]? = some b) ∧
        (s'.log = s.log ∨ s'.log = s.log ++ [FrameEvent.delivered f] ∧
          ∃ p, (s'.frames f).d = some p)) (fun _ => False) s := by
  obtain ⟨L, O, rank, hheap, hown, hpool, hfits⟩ := h
  have hfO := hheap.accounts.refs f (hpool.mem hf)
  have hplain := hpool.plain f hf
  have hcount := i.callback_refCount c mallocOk (s.frames f).toFrame
  refine (wp_captureFrame f i c mallocOk).imp fun r s' hr => ?_
  rcases hr.2 with ⟨-, rfl⟩ | ⟨size, hsize, rfl⟩
  · refine ⟨?_, fun _ _ hb => hb, .inl rfl⟩
    refine DataKept.refill hheap hown hpool hfits hfO (hpool.uncloned f hf) hplain _ ?_ ?_
      s.blocks s.log (fun _ _ hb => hb) (fun p hp => ?_) fun p hp => ?_
    · rfl
    · exact hcount
    all_goals cases hp
  · have hkeep : ∀ (j : ℕ) (b : Block), s.blocks[j]? = some b →
        (s.blocks ++ [Block.mk size true (some f)])[j]? = some b := by
      intro j b hb
      obtain ⟨hj, -⟩ := List.getElem?_eq_some_iff.1 hb
      rw [List.getElem?_append_left hj]
      exact hb
    have hblock : (s.blocks ++ [Block.mk size true (some f)])[s.blocks.length]? =
        some (Block.mk size true (some f)) := by simp
    refine ⟨?_, hkeep, ?_⟩
    · refine DataKept.refill hheap hown hpool hfits hfO (hpool.uncloned f hf) hplain _ ?_ ?_
        _ _ hkeep (fun p hp => ?_) fun p hp => ?_
      · rfl
      · exact hcount
      · obtain rfl := Option.some.inj hp
        refine ⟨_, hblock, rfl, ?_⟩
        rw [Nat.zero_add]
        exact (i.callback_length c mallocOk _ hsize).le
      · obtain rfl := Option.some.inj hp
        refine .inr ⟨rfl, fun b hb => ?_⟩
        obtain rfl := Option.some.inj (hblock.symm.trans hb)
        rfl
    · cases r with
      | false => exact .inl rfl
      | true => exact .inr ⟨rfl, _, by rw [FrameStore.withFrame_self]⟩

/-- A new ring has a buffer of its own. -/
theorem DataKept.ring (h : DataKept n R pool s) {ring : AudioRing} (hfits : ring.Fits)
    (hbuf : ring.buf = s.blocks.length) :
    DataKept n R pool { s with blocks := s.blocks ++ [Block.mk ring.buflen true none],
                               rings := s.rings ++ [ring] } := by
  obtain ⟨L, O, rank, hheap, hown, hpool, hold⟩ := h
  have hgrown := hown.grow (s.blocks ++ [Block.mk ring.buflen true none]) s.log fun i b hb => by
    obtain ⟨hi, -⟩ := List.getElem?_eq_some_iff.1 hb
    rw [List.getElem?_append_left hi]
    exact hb
  refine ⟨L, O, rank, hheap.memory _ _ _, ⟨hgrown.valid, fun f hf hnone p hp => ?_, hgrown.clone,
    fun r hr => ?_⟩, ⟨hpool.single, hpool.plain, hpool.uncloned⟩, fun r hr => ?_⟩
  · rcases hgrown.own f hf hnone p hp with ⟨r, hr, hbuf⟩ | hown
    · exact .inl ⟨r, List.mem_append_left _ hr, hbuf⟩
    · exact .inr hown
  all_goals rcases List.mem_append.1 hr with hr | hr
  · exact hgrown.rings r hr
  · obtain rfl := List.mem_singleton.1 hr
    rw [hbuf]
    exact ⟨Block.mk r.buflen true none, by simp, rfl, rfl, rfl⟩
  · exact hold r hr
  · obtain rfl := List.mem_singleton.1 hr
    exact hfits

/-- A ring is written, with the buffer that it had. -/
theorem DataKept.setRing (h : DataKept n R pool s) {k : ℕ} {r ring : AudioRing}
    (hr : s.rings[k]? = some r) (hfits : ring.Fits) (hbuf : ring.buf = r.buf)
    (hlen : ring.buflen = r.buflen) :
    DataKept n R pool { s with rings := s.rings.set k ring } := by
  obtain ⟨L, O, rank, hheap, hown, hpool, hold⟩ := h
  refine ⟨L, O, rank, hheap.memory _ _ _, ⟨hown.valid, fun f hf hnone p hp => ?_, hown.clone,
    fun r' hr' => ?_⟩, ⟨hpool.single, hpool.plain, hpool.uncloned⟩, fun r' hr' => ?_⟩
  · rcases hown.own f hf hnone p hp with ⟨r', hr', hbuf'⟩ | hown
    · obtain ⟨j, hj⟩ := List.mem_iff_getElem?.1 hr'
      by_cases hjk : j = k
      · subst hjk
        obtain rfl := Option.some.inj (hr.symm.trans hj)
        exact .inl ⟨ring, List.mem_set (List.getElem?_eq_some_iff.1 hr).1 ring, hbuf.trans hbuf'⟩
      · refine .inl ⟨r', List.mem_of_getElem? (i := j) ?_, hbuf'⟩
        rw [List.getElem?_set_ne (Ne.symm hjk)]
        exact hj
    · exact .inr hown
  all_goals rcases List.mem_or_eq_of_mem_set hr' with hr' | rfl
  · exact hown.rings r' hr'
  · rw [hbuf, hlen]
    exact hown.rings r (List.mem_of_getElem? hr)
  · exact hold r' hr'
  · exact hfits

/-- The bytes of a ring less what is not a whole frame: a number of frames, and not none of them
if the bytes are as many as a frame has or as far below zero. -/
theorem whole_frames {framelen : ℕ} (bytes : ℤ) (hlen : 0 < framelen)
    (hroom : framelen ≤ bytes.natAbs) : bytes - bytes.tmod framelen ≠ 0 ∧
      (framelen : ℤ) ∣ bytes - bytes.tmod framelen := by
  have hlt : (bytes.tmod framelen).natAbs < framelen := by
    rw [Int.natAbs_tmod]
    exact Nat.mod_lt _ hlen
  have hdiv := Int.mul_tdiv_add_tmod bytes framelen
  exact ⟨by omega, bytes.tdiv framelen, by omega⟩

/-- A ring of whole samples, with room for a frame. -/
theorem AudioRing.fits_new {sampleSize sampleRate framelen buf buflen : ℕ}
    (hsample : 0 < sampleSize) (hwhole : sampleSize ∣ framelen) (hlen : 0 < framelen)
    (hroom : framelen ≤ (ringBytes sampleSize sampleRate).natAbs)
    (hbuflen : (buflen : ℤ) = ringBytes sampleSize sampleRate -
      (ringBytes sampleSize sampleRate).tmod framelen) :
    AudioRing.Fits { framelen, sampleSize, sampleRate, adjustRate := 0, adjustCount := 0, ir := 0,
                     iw := 0, buf, buflen } := by
  obtain ⟨hne, hdvd⟩ := whole_frames _ hlen hroom
  rw [← hbuflen] at hne hdvd
  have hpos : 0 < buflen := by omega
  exact ⟨hlen, hsample, hwhole, Int.natCast_dvd_natCast.1 hdvd, ⟨⟨0, rfl⟩, hpos⟩, ⟨0, rfl⟩, hpos⟩

/-- What `audio_ring_input` keeps of the references and the store: the blocks are those that it
found, and what it delivered is referenced and has data. -/
structure RingKept (n k : ℕ) (pool : List ℕ) (s₀ : FrameStore) (ring : AudioRing) (R : List ℕ)
    (s : FrameStore) : Prop where
  kept : DataKept n R pool s
  ring : ∃ r, s.rings[k]? = some r ∧ r.buf = ring.buf ∧ r.buflen = ring.buflen
  blocks : s.blocks = s₀.blocks
  quiet : ∀ e ∈ s.log, e.block = none
  delivered : ∀ f, .delivered f ∈ s.log → f ∈ R ∧ ∃ p, (s.frames f).d = some p

/-- What the loop of a ring needs to keep the data.

**Proof sketch.** By the parts of the loop. The rate correction and the samples touch neither frames
nor references. A frame that is queued comes from the heap, gets the piece of the ring at `i_r`,
which has room for it, and is a reference until the call is through. -/
theorem ringRule_data (hn : 0 < n) {k : ℕ} {s₀ : FrameStore} {ring₀ : AudioRing} :
    RingRule (RingKept n k pool s₀ ring₀)
      (fun ring => ring.Fits ∧ ring.buf = ring₀.buf ∧ ring.buflen = ring₀.buflen)
      (fun _ => False) true where
  adjust := by
    rintro ring ⟨hfits, hbuf, hlen⟩
    obtain ⟨hfits', hbuf', hlen'⟩ := hfits.adjust
    exact ⟨hfits', hbuf'.trans hbuf, hlen'.trans hlen⟩
  store := by
    rintro ring s ⟨hfits, hbuf, hlen⟩
    refine (hfits.wp_store s).imp fun ring' s' h => ?_
    obtain ⟨⟨hfits', hbuf', hlen'⟩, hs⟩ := h
    exact ⟨⟨hfits', hbuf'.trans hbuf, hlen'.trans hlen⟩, hs⟩
  queue := by
    rintro ring R s ⟨hring, hbuf, hlen⟩ h
    obtain ⟨L, O, rank, hheap, hown, hpool, hfits⟩ := h.kept
    unfold queueFrame
    refine wp.seq (wp_newFrame_heaped hheap hn) fun r s₁ hr => ?_
    rcases hr with ⟨rfl, rfl, rfl⟩ | ⟨f, L', rfl, rfl, rfl, hnew⟩
    · exact h
    simp only
    rw [wp_bind, wp_getFrame, wp_bind, wp_setFrame, wp_ite]
    refine ⟨fun _ => ?_, fun hnot => absurd trivial hnot⟩
    have hfO := ((hheap.mem f).1 List.mem_cons_self).2.1
    have hfR : f ∉ R := fun hmem => hfO (hheap.accounts.refs f hmem)
    have hpopped := Pooled.popped hheap hpool
    have hown' := hown.popped hfO fun g hg o ho => (hheap.accounts.orig g hg o ho).1
    obtain ⟨r, hr, hrbuf, hrlen⟩ := h.ring
    have hrmem := List.mem_of_getElem? hr
    rw [wp_bind, wp_emit]
    refine ⟨?_, ⟨r, hr, hrbuf, hrlen⟩, h.blocks, fun e he => ?_, fun g hg => ?_⟩
    · refine DataKept.relog (DataKept.refill hnew hown' hpopped.2 hfits
        (Finset.mem_insert_self f O) (hpopped.1.uncloned f List.mem_cons_self)
        (hpopped.1.plain f List.mem_cons_self) _ ?_ ?_ (s.popped f).blocks (s.popped f).log
        (fun _ _ hb => hb) (fun p hp => ?_) fun p hp => ?_) _
      · rfl
      · rfl
      · -- the ring's buffer has room for the frame at `i_r`
        obtain rfl := Option.some.inj hp
        obtain ⟨b, hb, hlive, -, hsize⟩ := hown.rings r hrmem
        refine ⟨b, ?_, hlive, ?_⟩
        · rw [← hb, hrbuf, ← hbuf]
          rfl
        · have hroom := hring.room
          have hle : (UInt32.ofNat ring.framelen).toNat ≤ ring.framelen := Nat.mod_le ..
          change ring.ir + (UInt32.ofNat ring.framelen).toNat ≤ b.size
          omega
      · obtain rfl := Option.some.inj hp
        exact .inl ⟨r, hrmem, hrbuf.trans hbuf.symm⟩
    · rcases List.mem_append.1 he with he | he
      · rcases List.mem_append.1 he with he | he
        · exact h.quiet e he
        · rw [List.mem_singleton.1 he]
          rfl
      · rw [List.mem_singleton.1 he]
        rfl
    · by_cases hgf : g = f
      · subst hgf
        refine ⟨List.mem_cons_self, ⟨ring.buf, ring.ir⟩, ?_⟩
        simp only [FrameStore.withFrame_self]
      · have hold : .delivered g ∈ s.log := by
          simpa [FrameStore.popped, FrameStore.withFrame, hgf] using hg
        obtain ⟨hgR, hd⟩ := h.delivered g hold
        have hpg : (s.popped f).frames g = s.frames g := Function.update_of_ne hgf ..
        simp only [FrameStore.withFrame_of_ne _ hgf, hpg]
        exact ⟨List.mem_cons_of_mem f hgR, hd⟩
  next := by
    rintro ring ⟨hfits, hbuf, hlen⟩
    exact ⟨hfits.next, hbuf, hlen⟩

end Calls

/-- What is to be shown of a call: what it does with data, or that a count leaves `int`. -/
def CallOwned (n : ℕ) (s : FrameState) : Except Fault (FrameState × List FrameEvent) → Prop
  | .ok (s', o) => DataCall n s s' o
  | .error e => e = .overflow

/-- A reference that is held is a reference. -/
theorem FrameState.Holds.mem {s : FrameState} {f : ℕ} (h : s.Holds f) : f ∈ s.refs :=
  List.count_pos_iff.1 (Nat.zero_lt_of_lt h)

section Calls

variable {s : FrameState}

/-- `new_frame`, for a caller. -/
theorem owned_new (hn : 0 < n) (h : DataKept n s.refs s.pool s.store) :
    CallOwned n s (frameStep s .new) := by
  have hkept := h.relog []
  obtain ⟨L, O, rank, hheap, hown, hpool, hfits⟩ := id hkept
  rw [frameStep]
  refine call_rule (wp_newFrame_heaped hheap hn) (fun r store hr => ?_) fun _ he => he.elim
  rcases hr with ⟨rfl, rfl, rfl⟩ | ⟨f, L', rfl, rfl, rfl, hnew⟩
  · exact .quiet hkept (fun _ _ hb => hb) (by simp) (by simp)
  · refine .quiet ⟨L', _, _, hnew, ?_, (Pooled.popped hheap hpool).2, hfits⟩ (fun _ _ hb => hb) ?_ ?_
    · exact hown.popped ((hheap.mem f).1 List.mem_cons_self).2.1
        fun g hg o ho => (hheap.accounts.orig g hg o ho).1
    · simp [FrameStore.popped, FrameEvent.block]
    · simp [FrameStore.popped]

/-- `clone_frame`. -/
theorem owned_clone {orig : ℕ} (hn : 0 < n) (h : DataKept n s.refs s.pool s.store)
    (ha : s.Holds orig) :
    CallOwned n s (frameStep s (.clone orig)) := by
  have hkept := h.relog []
  obtain ⟨L, O, rank, hheap, hown, hpool, hfits⟩ := id hkept
  have hO := hheap.accounts.refs orig ha.mem
  rw [frameStep]
  refine call_rule (wp_cloneFrame hheap hn hO) (fun r store hr => ?_) fun _ he => he
  rcases hr with ⟨rfl, rfl, rfl⟩ | ⟨f, L', rank', rfl, rfl, rfl, hnew⟩
  · exact .quiet hkept (fun _ _ hb => hb) (by simp) (by simp)
  · refine .quiet (DataKept.cloned hheap hown hpool hfits hO (hpool.ne_held ha) hnew)
      (fun _ _ hb => hb) ?_ ?_
    · simp [FrameStore.cloned, FrameStore.withFrame, FrameStore.popped, FrameEvent.block]
    · simp [FrameStore.cloned, FrameStore.withFrame, FrameStore.popped]

/-- `ref_frame`. -/
theorem owned_ref {f : ℕ} (h : DataKept n s.refs s.pool s.store) (ha : s.Holds f) :
    CallOwned n s (frameStep s (.ref f)) := by
  obtain ⟨L, O, rank, hheap, hown, hpool, hfits⟩ := h.relog []
  rw [frameStep]
  refine call_rule wp_refFrame (fun _ store hr => ?_) fun _ he => he
  subst hr
  have hnew := hheap.reference (hheap.accounts.refs f ha.mem)
  have hsame : ∀ g ∈ O, (FrameStore.withFrame { s.store with log := [] } f
      ((s.store.frames f).setCount ((s.store.frames f).refCount + 1))).frames g =
        (s.store.frames g).setCount ((FrameStore.withFrame { s.store with log := [] } f
          ((s.store.frames f).setCount ((s.store.frames f).refCount + 1))).frames g).refCount := by
    intro g _
    by_cases hgf : g = f <;> simp [hgf]
  refine .quiet (DataKept.recount (hown.shrink (Finset.Subset.refl O) (hnew.orig_same hsame)
    hsame rfl rfl) hnew hpool hfits (Finset.Subset.refl O) hsame rfl fun g hg => ?_)
    (fun _ _ hb => hb) (by simp [FrameStore.withFrame]) (by simp [FrameStore.withFrame])
  have hgf : f ≠ g := fun heq => hpool.ne_held ha (heq ▸ hg)
  exact List.count_cons_of_ne hgf

/-- `unref_frame`. What it frees was allocated, and no frame that is referenced points there. -/
theorem owned_unref {f : ℕ} (h : DataKept n s.refs s.pool s.store) (ha : s.Holds f)
    (hg : Owning s (.unref f)) : CallOwned n s (frameStep s (.unref f)) := by
  obtain ⟨L, O, rank, hheap, hown, hpool, hfits⟩ := h.relog []
  rw [frameStep]
  refine call_rule (wp_unrefFrame_owned hheap hown ha.mem hg) (fun _ store hr => ?_)
    fun _ he => he.elim
  obtain ⟨L', O', hheap', hown', hsub, hsame, hrings, hfreed⟩ := hr
  have hkept' : DataKept n (s.refs.erase f) s.pool store :=
    DataKept.recount hown' hheap' hpool hfits hsub hsame hrings fun g hg =>
      List.count_erase_of_ne fun heq : g = f => hpool.ne_held ha (heq ▸ hg)
  cases hfreed with
  | nothing hblocks hlog =>
    exact .quiet hkept' (fun i b hb => hblocks ▸ hb) (by simp [hlog]) (by simp [hlog])
  | @data p b hb hlive hoff hframe hset hlog hother =>
    have hp : p.block < s.store.blocks.length := (List.getElem?_eq_some_iff.1 hb).1
    have hgone : store.blocks[p.block]? = some { b with live := false } := by
      rw [hset]
      exact List.getElem?_set_self hp
    refine ⟨hkept', fun i b' hb' hdead => ?_, fun f' q hq => ?_, ?_, ?_⟩
    · by_cases hi : i = p.block
      · subst hi
        exact ⟨_, hgone, rfl⟩
      · refine ⟨b', ?_, hdead⟩
        change store.blocks[i]? = some b'
        rw [hset, List.getElem?_set_ne (Ne.symm hi)]
        exact hb'
    · obtain ⟨rfl, rfl⟩ : f' = f ∧ q = p := by simpa [hlog] using hq
      refine ⟨hoff, ⟨b, hb, hlive, hframe⟩, ⟨_, hgone, rfl⟩, fun g hg q hq => ?_⟩
      exact hother g ((hheap'.mem_iff_referenced g).2 hg) q hq
    · simp [hlog, FrameEvent.block]
    · simp [hlog]

/-- `exchange_frame` with a new frame, which stays with the exchanger. -/
theorem owned_exchange (hn : 0 < n) (h : DataKept n s.refs s.pool s.store) :
    CallOwned n s (frameStep s .exchange) := by
  have hkept := h.relog []
  obtain ⟨L, O, rank, hheap, hown, hpool, hfits⟩ := id hkept
  rw [frameStep]
  refine call_rule (wp_newFrame_heaped hheap hn) (fun r store hr => ?_) fun _ he => he.elim
  rcases hr with ⟨rfl, rfl, rfl⟩ | ⟨f, L', rfl, rfl, rfl, hnew⟩
  · exact .quiet hkept (fun _ _ hb => hb) (by simp) (by simp)
  · refine .quiet ⟨L', _, _, hnew, ?_, (Pooled.popped hheap hpool).1, hfits⟩ (fun _ _ hb => hb) ?_ ?_
    · exact hown.popped ((hheap.mem f).1 List.mem_cons_self).2.1
        fun g hg o ho => (hheap.accounts.orig g hg o ho).1
    · simp [FrameStore.popped, FrameEvent.block]
    · simp [FrameStore.popped]

/-- A capture callback, which gives a frame of the exchanger to the master thread. -/
theorem owned_capture {f : ℕ} {i : Input} (h : DataKept n s.refs s.pool s.store)
    (ha : f ∈ s.pool) (c : i.Chunk) (mallocOk : Bool) :
    CallOwned n s (frameStep s (.capture f i c mallocOk)) := by
  have hkept := h.relog []
  obtain ⟨L, O, rank, hheap, hown, hpool, hfits⟩ := id hkept
  rw [frameStep]
  refine call_rule (wp_captureFrame_data hkept ha i c mallocOk) (fun r store hr => ?_)
    fun _ he => he.elim
  obtain ⟨⟨L', O', rank', hheap', hown', hpool', hfits'⟩, hblocks, hlog⟩ := hr
  refine .quiet ⟨L', O', rank', hheap', hown', ⟨fun g hg => ?_, fun g hg => ?_, fun g hg => ?_⟩,
    hfits'⟩ hblocks ?_ fun g hg => ?_
  · exact hpool'.single g (List.mem_of_mem_erase hg)
  · exact hpool'.plain g (List.mem_of_mem_erase hg)
  · exact hpool'.uncloned g (List.mem_of_mem_erase hg)
  · rcases hlog with hlog | ⟨hlog, -⟩ <;> simp [hlog, FrameEvent.block]
  · rcases hlog with hlog | ⟨hlog, hd⟩
    · simp [hlog] at hg
    · obtain rfl : g = f := by simpa [hlog] using hg
      exact ⟨hpool.mem ha, hd⟩

/-- `new_audio_ring`. -/
theorem owned_newRing {sampleSize sampleRate framelen : ℕ} (h : DataKept n s.refs s.pool s.store)
    (hg : Owning s (.newRing sampleSize sampleRate framelen)) :
    CallOwned n s (frameStep s (.newRing sampleSize sampleRate framelen)) := by
  have hkept := h.relog []
  obtain ⟨hsample, hwhole, hlen, hroom⟩ := hg
  rw [frameStep]
  refine call_rule (wp_newAudioRing sampleSize sampleRate framelen) (fun _ store hr => ?_)
    fun _ he => ?_
  · rcases hr with ⟨-, rfl | ⟨buflen, hbuflen, rfl⟩⟩
    · exact .quiet hkept (fun _ _ hb => hb) (by simp) (by simp)
    · refine .quiet (hkept.ring (AudioRing.fits_new hsample hwhole hlen hroom hbuflen) rfl)
        (fun i b hb => ?_) (by simp [FrameStore.withRing]) (by simp [FrameStore.withRing])
      obtain ⟨hi, -⟩ := List.getElem?_eq_some_iff.1 hb
      exact (List.getElem?_append_left hi).trans hb
  · exact absurd he.2 hlen.ne'

/-- `audio_ring_input`. The frames that it has made are references before it is through. -/
theorem owned_ringInput {k : ℕ} {rate : Option ℤ} {samples : List Bool} (hn : 0 < n)
    (h : DataKept n s.refs s.pool s.store) (hg : Owning s (.ringInput k rate samples)) :
    CallOwned n s (frameStep s (.ringInput k rate samples)) := by
  have hkept := h.relog []
  obtain ⟨-, -, -, -, -, -, hfits⟩ := id hkept
  obtain ⟨hk, hall⟩ := hg
  have hring : s.store.rings[k]? = some s.store.rings[k] := List.getElem?_eq_getElem hk
  rw [frameStep]
  refine call_rule (Q := fun fs store => RingKept n k s.pool s.store s.store.rings[k]
    (fs ++ s.refs) store) (E := fun _ => False) (wp_audioRingInput
      (J := fun ring => ring.Fits ∧ ring.buf = s.store.rings[k].buf ∧
        ring.buflen = s.store.rings[k].buflen) (fun q hq => ?_) (fun hnone => ?_)
      (fun ring hr => ?_) (fun ring r hJ => ?_) ?_ fun R t ring h hJ => ?_)
    (fun fs store hr => ?_) fun _ he => he.elim
  · rw [hall q hq]
    exact ringRule_data hn
  · exact absurd (hring.symm.trans hnone) (by simp)
  · obtain rfl := Option.some.inj (hring.symm.trans hr)
    exact ⟨hfits _ (List.getElem_mem hk), rfl, rfl⟩
  · obtain ⟨h, hbuf, hlen⟩ := hJ
    exact ⟨⟨h.framelen, h.sample, h.whole, h.frames, h.ir, h.iw⟩, hbuf, hlen⟩
  · exact ⟨hkept, ⟨_, hring, rfl, rfl⟩, rfl, by simp, by simp⟩
  · obtain ⟨r, hr, hrbuf, hrlen⟩ := h.ring
    refine ⟨h.kept.setRing hr hJ.1 (hJ.2.1.trans hrbuf.symm) (hJ.2.2.trans hrlen.symm),
      ⟨ring, ?_, hJ.2⟩, h.blocks, h.quiet, h.delivered⟩
    exact List.getElem?_set_self (List.getElem?_eq_some_iff.1 hr).1
  · refine .quiet hr.kept (fun i b hb => ?_) hr.quiet hr.delivered
    rw [hr.blocks]
    exact hb

/-- **One call.** -/
theorem owned_call (hn : 0 < n) (h : DataKept n s.refs s.pool s.store)
    {a : FrameAct} (ha : Disciplined s a) (hg : Owning s a) : CallOwned n s (frameStep s a) := by
  cases a with
  | new => exact owned_new hn h
  | clone orig => exact owned_clone hn h ha
  | ref f => exact owned_ref h ha
  | unref f => exact owned_unref h ha hg
  | exchange => exact owned_exchange hn h
  | capture f i c mallocOk => exact owned_capture h ha c mallocOk
  | convert uyvy => exact hg.elim
  | newRing sampleSize sampleRate framelen => exact owned_newRing h hg
  | ringInput k rate samples => exact owned_ringInput hn h hg

end Calls

/-- What every run of calls that release no borrowed data keeps: what was freed stays so. -/
theorem owned_run {s : FrameState} (hn : 0 < n) {as : List FrameAct} {os : List FrameEvent}
    (h : Machine.Run (frameMachine n) (fun s a => Disciplined s a ∧ Owning s a) as os s) :
    DataKept n s.refs s.pool s.store ∧ (os.filterMap FrameEvent.block).Nodup ∧
      ∀ i ∈ os.filterMap FrameEvent.block, ∃ b, s.store.blocks[i]? = some b ∧ b.live = false := by
  refine h.history (fun _ os (s : FrameState) => DataKept n s.refs s.pool s.store ∧
    (os.filterMap FrameEvent.block).Nodup ∧
    ∀ i ∈ os.filterMap FrameEvent.block, ∃ b, s.store.blocks[i]? = some b ∧ b.live = false) ?_ ?_
  · rintro s ⟨⟨frames, hstore⟩, hrefs, hpool, -⟩
    refine ⟨⟨List.range n, ∅, fun _ => 0, ?_, ?_, ?_, ?_⟩, List.nodup_nil, by simp⟩
    · rw [hstore, hrefs]
      exact heaped_init n frames
    · rw [hstore]
      exact ⟨by simp, by simp, by simp, by simp [FrameStore.initFrameHeap]⟩
    · rw [hpool]
      exact ⟨by simp, by simp, by simp⟩
    · rw [hstore]
      simp [FrameStore.initFrameHeap]
  · rintro as os s a s' o ⟨hkept, hnodup, hdead⟩ ⟨ha, hg⟩ hs
    have hcall := owned_call hn hkept ha hg
    change frameStep s a = .ok (s', o) at hs
    rw [hs] at hcall
    have hblock : ∀ i ∈ o.filterMap FrameEvent.block, ∃ f p, .freed f p ∈ o ∧ p.block = i := by
      intro i hi
      obtain ⟨e, he, hei⟩ := List.mem_filterMap.1 hi
      cases e with
      | freed f p => exact ⟨f, p, he, Option.some.inj hei⟩
      | taken | delivered => cases hei
    refine ⟨hcall.kept, ?_, fun i hi => ?_⟩
    · -- what this call frees was there before it
      rw [List.filterMap_append]
      refine List.nodup_append'.2 ⟨hnodup, hcall.once, fun i hi hi' => ?_⟩
      obtain ⟨f, p, hmem, rfl⟩ := hblock i hi'
      obtain ⟨b, hb, hlive, -⟩ := (hcall.freed f p hmem).block
      obtain ⟨b', hb', hgone⟩ := hdead _ hi
      obtain rfl := Option.some.inj (hb.symm.trans hb')
      rw [hlive] at hgone
      cases hgone
    · rw [List.filterMap_append] at hi
      rcases List.mem_append.1 hi with hi | hi
      · obtain ⟨b, hb, hgone⟩ := hdead i hi
        exact hcall.dead i b hb hgone
      · obtain ⟨f, p, hmem, rfl⟩ := hblock i hi
        exact (hcall.freed f p hmem).dead

/-- **Whose data is freed.** In every run of calls that release no borrowed data: the data of every
referenced frame is a block with room for its length, no block is freed twice, and in the next such
call what is delivered has data, what is freed was allocated for its frame and is the data of no
other referenced frame, and nothing goes wrong but a count that leaves `int`. -/
theorem frame_data {s : FrameState} (hn : 1 ≤ n) {as : List FrameAct} {os : List FrameEvent}
    (h : Machine.Run (frameMachine n) (fun s a => Disciplined s a ∧ Owning s a) as os s) :
    (∀ f, Referenced s f → ∀ p, (s.store.frames f).d = some p → s.store.Valid f p) ∧
      (os.filterMap FrameEvent.block).Nodup ∧
      ∀ a, Disciplined s a → Owning s a →
        (∀ e, frameStep s a = .error e → e = .overflow) ∧
        ∀ s' o, frameStep s a = .ok (s', o) →
          (∀ f, .delivered f ∈ o →
            ∃ p, (s'.store.frames f).d = some p ∧ s'.store.Valid f p) ∧
          ∀ f p, .freed f p ∈ o → FreedOwn s s' f p := by
  obtain ⟨hkept, hnodup, -⟩ := owned_run hn h
  refine ⟨fun f hf p hp => ?_, hnodup, fun a ha hg => ⟨fun e he => ?_, fun s' o hs => ?_⟩⟩
  · obtain ⟨L, O, rank, hheap, hown, -⟩ := hkept
    exact hown.valid f ((hheap.mem_iff_referenced f).2 hf) p hp
  · have hcall := owned_call hn hkept ha hg
    rwa [he] at hcall
  · have hcall := owned_call hn hkept ha hg
    rw [hs] at hcall
    exact ⟨hcall.delivered, hcall.freed⟩

/-- A picture of three bytes. -/
def pictureInput : Input := .video ⟨.h264, 16, 16⟩

/-- Its chunk. -/
def pictureChunk : pictureInput.Chunk := (⟨true, 0, 3⟩ : VideoFrame)

/-- A picture is captured and its frame is released by the one consumer that has it; the next
picture is captured into the other frame. -/
theorem frame_data_capture : ∃ s : FrameState, (∀ f, Referenced s f → ∀ p,
      (s.store.frames f).d = some p → s.store.Valid f p) ∧
    (s.store.frames 1).d = some ⟨1, 0⟩ := by
  have hrun : ∃ s, Machine.Run (frameMachine 2) (fun s a => Disciplined s a ∧ Owning s a)
      [.exchange, .capture 0 pictureInput pictureChunk true, .unref 0, .exchange,
        .capture 1 pictureInput pictureChunk true]
      [.taken 0, .delivered 0, .freed 0 ⟨0, 0⟩, .taken 1, .delivered 1] s ∧
        (s.store.frames 1).d = some ⟨1, 0⟩ :=
    Machine.Run.of_exec (fun s : FrameState => (s.store.frames 1).d)
      (frameMachine_started 2 fun _ => .raw) (by decide +kernel)
  obtain ⟨s, hrun, hd⟩ := hrun
  exact ⟨s, (frame_data (by decide) hrun).1, hd⟩

/-- A clone of a captured picture is released: its data is freed, which was allocated for the
original, and the original is still referenced with that data. -/
theorem clone_frees_original : ∃ (s : FrameState) (as : List FrameAct) (os : List FrameEvent),
    Machine.Run (frameMachine 2) Disciplined as os s ∧ .freed 1 ⟨0, 0⟩ ∈ os ∧
      s.store.blocks[0]? = some ⟨3, false, some 0⟩ ∧ Referenced s 0 ∧
      (s.store.frames 0).d = some ⟨0, 0⟩ := by
  have hrun : ∃ s, Machine.Run (frameMachine 2) Disciplined
      [.exchange, .capture 0 pictureInput pictureChunk true, .clone 0, .unref 1]
      [.taken 0, .delivered 0, .taken 1, .freed 1 ⟨0, 0⟩] s ∧
        (s.store.blocks[0]?, s.refs, (s.store.frames 0).d) =
          (some ⟨3, false, some 0⟩, [0], some ⟨0, 0⟩) :=
    Machine.Run.of_exec
      (fun s : FrameState => (s.store.blocks[0]?, s.refs, (s.store.frames 0).d))
      (frameMachine_started 2 fun _ => .raw) (by decide +kernel)
  obtain ⟨s, hrun, hall⟩ := hrun
  obtain ⟨hblock, hrefs, hd⟩ : s.store.blocks[0]? = _ ∧ s.refs = _ ∧ (s.store.frames 0).d = _ := by
    simpa only [Prod.mk.injEq] using hall
  refine ⟨s, _, _, hrun, by simp, hblock, .held ?_, hd⟩
  rw [hrefs]
  exact List.mem_singleton_self 0

end Spook
