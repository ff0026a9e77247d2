import OTSecurity.Receiver.Spool

/-!
# Reading the spool

What `read` returns from a spool and a directory that hold a segmented log.

* `Stored` — a record whose encoding succeeded; `recSize` — the bytes it takes.
* `Holds` — the directory and the sizes are those of a list of segments, in order.

Principal results: `readSegment_place`, one segment is read record by record; `read_boundary` and
`read_gap`, reading from a position between records up to a limit returns the first records of the
log there, across segments that exist and segments that are gone.
-/

namespace OTS.Receiver

/-- The body a record was written as. -/
def bodyOf (r : Rec) : Bytes := (encodeBody r).getD []

def recSize (r : Rec) : Nat := (bodyOf r).length + 8

/-- A record that `append` can write. -/
structure Stored (r : Rec) : Prop where
  identified : r.Identified
  encoded : encodeBody r = some (bodyOf r)
  body_lt : (bodyOf r).length < 2 ^ 32

/-- The bytes of a segment. -/
def fileBytes (rs : List Rec) : Bytes := framesOf crc32 (rs.map bodyOf)

theorem recSize_pos (r : Rec) : 0 < recSize r := Nat.succ_pos _

theorem encodeBody_ne_nil {r : Rec} : encodeBody r ≠ some [] := by
  intro h
  unfold encodeBody at h
  split at h
  · cases h
  · split at h
    · cases h
    · split at h
      · simp [bodyBytes, be] at h
      · cases h

theorem Stored.framable {r : Rec} (h : Stored r) : Framable (bodyOf r) :=
  ⟨fun he => encodeBody_ne_nil (he ▸ h.encoded), h.body_lt⟩

theorem encodeRec_eq {r : Rec} {rec : Bytes} (hid : r.Identified) (h : encodeRec r = some rec) :
    Stored r ∧ rec = frame crc32 (bodyOf r) ∧ rec.length = recSize r := by
  unfold encodeRec at h
  split at h
  · cases h
  · rename_i body hbody
    have hb : bodyOf r = body := by simp [bodyOf, hbody]
    split at h
    · rename_i hlt
      obtain rfl := Option.some.inj h
      exact ⟨⟨hid, hb ▸ hbody, hb ▸ hlt⟩, by rw [hb], by simp [recSize, hb]⟩
    · cases h

theorem fileBytes_append (as bs : List Rec) :
    fileBytes (as ++ bs) = fileBytes as ++ fileBytes bs := by
  simp [fileBytes, framesOf_append]

@[simp] theorem fileBytes_length (rs : List Rec) : (fileBytes rs).length = bytesOf recSize rs := by
  rw [fileBytes, framesOf_length, List.map_map]
  rfl

/-! ## One segment -/

/-- **The inner loop returns the next records of the segment.** -/
theorem readSegment_place {data c : Bytes} {a b : List Rec} (hb : ∀ r ∈ b, Stored r)
    (h : data = fileBytes a ++ (fileBytes b ++ c)) (seg n : Nat) :
    Spool.readSegment data seg (bytesOf recSize a + bytesOf recSize b) n (bytesOf recSize a) =
      some (place recSize seg (bytesOf recSize a) (b.take n),
        bytesOf recSize a + bytesOf recSize (b.take n)) := by
  induction b generalizing a n with
  | nil => cases n <;> simp [Spool.readSegment, place]
  | cons r b ih =>
    cases n with
    | zero => simp [Spool.readSegment, place]
    | succ n =>
      have hr := hb r List.mem_cons_self
      have hpos := recSize_pos r
      have hread : readFrame crc32 data (bytesOf recSize a) =
          some (bodyOf r, bytesOf recSize a + recSize r) := by
        have hsplit : data = fileBytes a ++ (frame crc32 (bodyOf r) ++ (fileBytes b ++ c)) := by
          simpa [fileBytes, framesOf] using h
        rw [readFrame_of_split hsplit (fileBytes_length a).symm hr.body_lt, recSize]
        congr 2
        omega
      have hnext := ih (a := a ++ [r]) (fun x hx => hb x (List.mem_cons_of_mem _ hx))
        (by rw [h, fileBytes_append]; simp [fileBytes, framesOf]) n
      simp only [bytesOf_append, bytesOf_cons, bytesOf_nil, Nat.add_zero, Nat.add_assoc] at hnext
      simp only [Spool.readSegment, bytesOf_cons, hread, parseBody_encodeBody hr.identified hr.encoded,
        hnext, List.take_succ_cons, place]
      rw [if_pos (by omega)]

/-! ## The directory -/

/-- The spool and its directory hold the segments `segs`. -/
structure Holds (s : Spool) (d : Disk) (segs : List (Nat × List Rec)) : Prop where
  asc : Ascending segs
  stored : ∀ g ∈ segs, ∀ r ∈ g.2, Stored r
  files : d.files.entries = segs.map (fun g => (g.1, fileBytes g.2))
  sizes : s.sizes.entries = segs.map (fun g => (g.1, bytesOf recSize g.2))

theorem min?_ascending {ks : List Nat} (h : ks.Pairwise (· < ·)) : ks.min? = ks.head? :=
  List.min?_eq_head? (h.imp (fun hab => Nat.min_eq_left (Nat.le_of_lt hab)))

section

variable {s : Spool} {d : Disk} {segs before after : List (Nat × List Rec)} {limit : Position}

theorem Holds.keys (H : Holds s d segs) : s.sizes.keys = segs.map (·.1) := by
  rw [ODict.keys, H.sizes, List.map_map]
  rfl

/-- The next segment after those up to `p`. -/
theorem Holds.later (H : Holds s d (before ++ after)) {p : Nat} (hb : ∀ g ∈ before, g.1 ≤ p)
    (ha : ∀ g ∈ after, p < g.1) :
    (s.sizes.keys.filter (p < ·)).min? = after.head?.map (·.1) := by
  have hkeys : s.sizes.keys.filter (p < ·) = after.map (·.1) := by
    rw [H.keys, List.map_append]
    refine filter_append_right (fun k hk => ?_) (fun k hk => ?_)
    · obtain ⟨g, hg, rfl⟩ := List.mem_map.1 hk
      have := hb g hg
      simp
      omega
    · obtain ⟨g, hg, rfl⟩ := List.mem_map.1 hk
      simpa using ha g hg
  have hasc : (after.map (·.1)).Pairwise (· < ·) :=
    List.pairwise_map.2 ((List.pairwise_append.1 H.asc).2.1)
  rw [hkeys, min?_ascending hasc, List.head?_map]

theorem Holds.size {seg : Nat} {rs : List Rec} (H : Holds s d (before ++ (seg, rs) :: after)) :
    s.sizes.get? seg = some (bytesOf recSize rs) :=
  ODict.get?_of_entries (by rw [H.sizes, List.map_append, List.map_cons])

theorem Holds.file {seg : Nat} {rs : List Rec} (H : Holds s d (before ++ (seg, rs) :: after)) :
    d.files.get? seg = some (fileBytes rs) :=
  ODict.get?_of_entries (by rw [H.files, List.map_append, List.map_cons])

/-- Nothing is read at or beyond the limit, nor when nothing more is asked for. -/
theorem readLoop_stop {p : Position} {n fuel : Nat} (hfuel : 1 ≤ fuel) (h : n = 0 ∨ ¬ p < limit) :
    s.readLoop d limit fuel p n = some [] := by
  obtain ⟨fuel, rfl⟩ : ∃ f, fuel = f + 1 := ⟨fuel - 1, by omega⟩
  rw [Spool.readLoop, if_pos h]

/-- Beyond the limit no record lies below it. -/
theorem filter_beyond {p : Position} {es : List Entry} (hp : ¬ p < limit)
    (hes : ∀ e ∈ es, p ≤ e.start ∧ e.start < e.stop) :
    es.filter (fun e => e.stop ≤ limit) = [] := by
  rw [List.filter_eq_nil_iff]
  intro e he
  have := lt_of_le_of_lt ((not_lt.1 hp).trans (hes e he).1) (hes e he).2
  simpa using this

/-- The records from a boundary on. -/
def rest (seg : Nat) (rs : List Rec) (i : Nat) (after : List (Nat × List Rec)) : List Entry :=
  place recSize seg (mark recSize seg rs i).off (rs.drop i) ++ placeAll recSize after

theorem rest_bounds {seg : Nat} {rs : List Rec} (hasc : Ascending (before ++ (seg, rs) :: after))
    (i : Nat) : ∀ e ∈ rest seg rs i after, mark recSize seg rs i ≤ e.start ∧ e.start < e.stop := by
  intro e he
  have hle := @le_start_of_split _ recSize _ _ _ _ hasc i e he
  refine ⟨hle, start_lt_stop recSize_pos
    (show e ∈ placeAll recSize (before ++ (seg, rs) :: after) from ?_)⟩
  rw [placeAll_split i]
  exact List.mem_append_right _ he

/-- Past the end of a segment with a later one below the limit: one round leads to its start. -/
theorem readLoop_move {seg' : Nat} {rs rs' : List Rec} {n fuel : Nat} {p : Position}
    (H : Holds s d (before ++ (p.seg, rs) :: (seg', rs') :: after))
    (hoff : bytesOf recSize rs ≤ p.off) (hseg : p.seg < limit.seg) (hn : n ≠ 0) :
    s.readLoop d limit (fuel + 1) p n = s.readLoop d limit fuel ⟨seg', 0⟩ n := by
  have hlt : p < limit := Position.lt_def.2 (.inl hseg)
  obtain ⟨hb, ha⟩ := ascending_split H.asc
  have hlater := @Holds.later s d (before ++ [(p.seg, rs)]) ((seg', rs') :: after)
    (by simpa using H) p.seg
    (by
      intro g hg
      rcases List.mem_append.1 hg with hg | hg
      · exact Nat.le_of_lt (hb g hg)
      · rw [List.mem_singleton.1 hg])
    ha
  simp only [Spool.readLoop, hlater, H.size, List.head?_cons, Option.map_some]
  rw [if_neg (by simp [hn, hlt]), if_neg (by omega : ¬ p.seg = limit.seg), if_pos hoff,
    if_neg (by omega)]

/-- A segment cut at two boundaries. -/
theorem take_cut {i j : Nat} (rs : List Rec) (hij : i ≤ j) :
    rs.take j = rs.take i ++ (rs.take j).drop i := by
  conv => lhs; rw [← List.take_append_drop i (rs.take j)]
  rw [List.take_take, Nat.min_eq_left hij]

/-- One round over the segment at `p`, from its boundary `i` to its boundary `j`. -/
theorem readLoop_read {rs : List Rec} {i j n fuel : Nat} {p : Position}
    (H : Holds s d (before ++ (p.seg, rs) :: after)) (hoff : p.off = bytesOf recSize (rs.take i))
    (hij : i < j) (hj : j ≤ rs.length) (hlt : p < limit) (hn : n ≠ 0)
    (hend : (if p.seg = limit.seg then limit.off else bytesOf recSize rs) =
      bytesOf recSize (rs.take j)) :
    s.readLoop d limit (fuel + 1) p n =
      (s.readLoop d limit fuel ⟨p.seg, p.off + bytesOf recSize (((rs.take j).drop i).take n)⟩
        (n - (j - i))).map (place recSize p.seg p.off (((rs.take j).drop i).take n) ++ ·) := by
  have hlen : bytesOf recSize (rs.take i) < bytesOf recSize (rs.take j) :=
    bytesOf_take_lt recSize_pos hij hj
  have hcut := take_cut rs (Nat.le_of_lt hij)
  have hbytes : bytesOf recSize (rs.take j) =
      bytesOf recSize (rs.take i) + bytesOf recSize ((rs.take j).drop i) := by
    conv => lhs; rw [hcut, bytesOf_append]
  have hdata : fileBytes rs = fileBytes (rs.take i) ++ (fileBytes ((rs.take j).drop i) ++
      fileBytes (rs.drop j)) := by
    conv => lhs; rw [← List.take_append_drop j rs, hcut]
    simp only [fileBytes_append, List.append_assoc]
  have hstored : ∀ r ∈ (rs.take j).drop i, Stored r := fun r hr =>
    H.stored (p.seg, rs) (by simp) r (List.mem_of_mem_take (List.mem_of_mem_drop hr))
  have hread := readSegment_place hstored hdata p.seg n
  rw [← hbytes, ← hoff] at hread
  have hlens : n - (place recSize p.seg p.off (((rs.take j).drop i).take n)).length =
      n - (j - i) := by
    simp only [place_length, List.length_take, List.length_drop]
    omega
  simp only [Spool.readLoop, H.size, H.file, hend, hread, hlens]
  rw [if_neg (by simp [hn, hlt]), if_neg (by omega)]
  cases s.readLoop d limit fuel _ (n - (j - i)) <;> rfl

/-- The records of a segment and of those after it, below the limit. -/
def below (limit : Position) (es : List Entry) : List Entry := es.filter (fun e => e.stop ≤ limit)

theorem below_of_seg_lt {seg off : Nat} {rs : List Rec} (h : seg < limit.seg) :
    below limit (place recSize seg off rs) = place recSize seg off rs := by
  refine List.filter_eq_self.2 (fun e he => ?_)
  obtain ⟨-, h2, -⟩ := mem_place he
  exact decide_eq_true (Position.le_def.2 (.inl (by rw [h2]; exact h)))

/-- Below a limit in the segment itself lie the records between the two boundaries. -/
theorem below_of_seg_eq {rs : List Rec} {i j : Nat} {p : Position}
    (hasc : Ascending (before ++ (p.seg, rs) :: after)) (hoff : p.off = bytesOf recSize (rs.take i))
    (hij : i ≤ j) (hj : j ≤ rs.length) (hlimit : limit = mark recSize p.seg rs j) :
    below limit (place recSize p.seg p.off (rs.drop i) ++ placeAll recSize after) =
      place recSize p.seg p.off ((rs.take j).drop i) := by
  have hdrop : rs.drop i = (rs.take j).drop i ++ rs.drop j := by
    conv => lhs; rw [← List.take_append_drop j rs]
    rw [List.drop_append, List.drop_drop, List.length_take]
    congr 2
    omega
  have hbytes : p.off + bytesOf recSize ((rs.take j).drop i) = (mark recSize p.seg rs j).off := by
    rw [hoff, ← bytesOf_append, ← take_cut rs hij]
    rfl
  rw [hdrop, place_append, hbytes, List.append_assoc, below, hlimit]
  refine filter_append_left (fun e he => ?_) (fun e he => ?_)
  · obtain ⟨-, h2, -, h4, -⟩ := mem_place he
    exact decide_eq_true (Position.le_def.2 (.inr ⟨by rw [h2]; rfl, hbytes ▸ h4⟩))
  · have := rest_bounds hasc j e he
    simpa using this.1.trans_lt this.2

/-- A limit in the segment of `p`: one round reads up to it. -/
theorem readLoop_within {rs : List Rec} {i j n fuel : Nat} {p : Position}
    (H : Holds s d (before ++ (p.seg, rs) :: after)) (hoff : p.off = bytesOf recSize (rs.take i))
    (hj : j ≤ rs.length) (hij : i < j) (hlimit : limit = mark recSize p.seg rs j) (hn : n ≠ 0)
    (hfuel : 2 ≤ fuel) :
    s.readLoop d limit fuel p n = some ((below limit
      (place recSize p.seg p.off (rs.drop i) ++ placeAll recSize after)).take n) := by
  obtain ⟨fuel, rfl⟩ : ∃ f, fuel = f + 1 := ⟨fuel - 1, by omega⟩
  have hcut := take_cut rs (Nat.le_of_lt hij)
  have hlt : p < limit := by
    rw [hlimit]
    exact Position.lt_def.2 (.inr ⟨rfl, by rw [hoff]; exact bytesOf_take_lt recSize_pos hij hj⟩)
  have hend : (if p.seg = limit.seg then limit.off else bytesOf recSize rs) =
      bytesOf recSize (rs.take j) := by
    simp [hlimit, mark]
  rw [readLoop_read H hoff hij hj hlt hn hend, readLoop_stop (by omega), Option.map_some,
    List.append_nil, below_of_seg_eq H.asc hoff (Nat.le_of_lt hij) hj hlimit, place_take]
  -- what is left to ask for is nothing, or the limit is reached
  rcases Nat.lt_or_ge (j - i) n with hlt' | hge
  · right
    rw [List.take_of_length_le (by simp; omega), hoff, ← bytesOf_append, ← hcut, hlimit]
    exact lt_irrefl _
  · left
    omega

/-- The segments other than that of `p` come before or after it. -/
theorem mem_split {seg : Nat} {rs : List Rec} (hasc : Ascending (before ++ (seg, rs) :: after))
    {g : Nat × List Rec} (hg : g ∈ before ++ (seg, rs) :: after) :
    g.1 < seg ∨ g = (seg, rs) ∨ g ∈ after := by
  rcases List.mem_append.1 hg with hg | hg
  · exact .inl ((ascending_split hasc).1 g hg)
  · rcases List.mem_cons.1 hg with rfl | hg
    · exact .inr (.inl rfl)
    · exact .inr (.inr hg)

/-- When nothing is asked for, at or beyond the limit, or with the limit in the segment of `p`. -/
theorem readLoop_near (hlimit : Boundary recSize segs limit) {rs : List Rec} {i n fuel : Nat}
    {p : Position} (hsegs : segs = before ++ (p.seg, rs) :: after) (H : Holds s d segs)
    (hi : i ≤ rs.length) (hoff : p.off = bytesOf recSize (rs.take i)) (hfuel : 2 ≤ fuel)
    (h : n = 0 ∨ ¬ p < limit ∨ limit.seg = p.seg) :
    s.readLoop d limit fuel p n = some ((below limit
      (place recSize p.seg p.off (rs.drop i) ++ placeAll recSize after)).take n) := by
  subst hsegs
  have hp : p = mark recSize p.seg rs i := Position.ext rfl hoff
  rcases Nat.eq_zero_or_pos n with rfl | hn
  · rw [readLoop_stop (by omega) (.inl rfl), List.take_zero]
  rcases lt_or_ge p limit with hlt | hge
  · have hseg : limit.seg = p.seg := by
      rcases h with h | h | h
      · omega
      · exact absurd hlt h
      · exact h
    obtain ⟨g, hg, j, hj, hmark⟩ := hlimit
    have hgseg : g.1 = p.seg := by rw [← hseg, hmark]; rfl
    rcases mem_split H.asc hg with h | rfl | h
    · omega
    · have hij : i < j := by
        rw [← bytesOf_take_lt_iff recSize_pos hi hj, ← hoff]
        rcases Position.lt_def.1 (hmark ▸ hlt) with h | ⟨-, h⟩
        · exact absurd h (lt_irrefl _)
        · exact h
      exact readLoop_within H hoff hj hij hmark hn.ne' hfuel
    · have := (ascending_split H.asc).2 g h
      omega
  · rw [readLoop_stop (by omega) (.inr (not_lt.2 hge)), below, filter_beyond (not_lt.2 hge),
      List.take_nil]
    intro e he
    have := rest_bounds H.asc i e (by rw [rest, ← hp]; exact he)
    exact ⟨hp ▸ this.1, this.2⟩

/-- **Reading from a boundary of a segment that exists.** -/
theorem readLoop_boundary (hlimit : Boundary recSize segs limit) {rs : List Rec} {i n fuel : Nat}
    {p : Position} (hsegs : segs = before ++ (p.seg, rs) :: after) (H : Holds s d segs)
    (hi : i ≤ rs.length) (hoff : p.off = bytesOf recSize (rs.take i))
    (hfuel : 2 * after.length + 2 ≤ fuel) :
    s.readLoop d limit fuel p n = some ((below limit
      (place recSize p.seg p.off (rs.drop i) ++ placeAll recSize after)).take n) := by
  induction after generalizing before rs i n fuel p with
  | nil =>
    refine readLoop_near hlimit hsegs H hi hoff (by omega) ?_
    obtain ⟨g, hg, j, hj, rfl⟩ := hlimit
    subst hsegs
    rcases mem_split H.asc hg with h | rfl | h
    · exact .inr (.inl (fun hlt => absurd (Position.lt_def.1 hlt) (by dsimp only [mark]; omega)))
    · exact .inr (.inr rfl)
    · cases h
  | cons g after ih =>
    by_cases hnear : n = 0 ∨ ¬ p < limit ∨ limit.seg = p.seg
    · exact readLoop_near hlimit hsegs H hi hoff (by omega) hnear
    simp only [not_or, not_not] at hnear
    obtain ⟨hn, hlt, hne⟩ := hnear
    have hseg : p.seg < limit.seg := by
      rcases Position.lt_def.1 hlt with h | ⟨h, -⟩
      · exact h
      · exact absurd h.symm hne
    obtain ⟨seg', rs'⟩ := g
    have hnext : ∀ f m, 2 * after.length + 2 ≤ f → s.readLoop d limit f ⟨seg', 0⟩ m =
        some ((below limit (placeAll recSize ((seg', rs') :: after))).take m) := fun f m hf =>
      @ih (before ++ [(p.seg, rs)]) rs' 0 m f ⟨seg', 0⟩ (by simp [hsegs])
        (Nat.zero_le _) rfl hf
    -- the rest of this segment is below the limit, then the walk moves to the next
    have hbelow : below limit (place recSize p.seg p.off (rs.drop i) ++
        placeAll recSize ((seg', rs') :: after)) = place recSize p.seg p.off (rs.drop i) ++
          below limit (placeAll recSize ((seg', rs') :: after)) := by
      conv => rhs; rw [← below_of_seg_lt hseg]
      exact List.filter_append _ _
    obtain ⟨fuel, rfl⟩ : ∃ f, fuel = f + 1 := ⟨fuel - 1, by omega⟩
    rw [hbelow, List.take_append, place_take, place_length]
    rcases Nat.lt_or_ge i rs.length with hlen | hlen
    · have htake : rs.take rs.length = rs := List.take_length
      rw [readLoop_read (hsegs ▸ H) hoff hlen (Nat.le_refl _) hlt hn
        (by rw [if_neg (Ne.symm hne), htake]), htake, List.length_drop]
      rcases Nat.eq_zero_or_pos (n - (rs.length - i)) with hz | hpos
      · rw [hz, readLoop_stop (by omega) (.inl rfl)]
        simp
      · obtain ⟨fuel, rfl⟩ : ∃ f, fuel = f + 1 := ⟨fuel - 1, by simp at hfuel; omega⟩
        have hend : bytesOf recSize rs ≤ p.off + bytesOf recSize ((rs.drop i).take n) := by
          rw [List.take_of_length_le (by simp; omega), hoff, bytesOf_take_drop]
        rw [@readLoop_move s d before after limit seg' rs rs' _ fuel ⟨p.seg, _⟩ (hsegs ▸ H) hend hseg
          hpos.ne', hnext _ _ (by simp at hfuel; omega)]
        simp
    · obtain rfl : i = rs.length := Nat.le_antisymm hi hlen
      rw [readLoop_move (hsegs ▸ H) (by rw [hoff, List.take_length]) hseg hn,
        hnext _ _ (by simp at hfuel; omega)]
      simp [place]

/-- Reading from a position of a segment that is gone, or from no segment at all. -/
theorem readLoop_gap (hlimit : Boundary recSize segs limit) {n fuel : Nat} {p : Position}
    (hsegs : segs = before ++ after) (H : Holds s d segs) (hb : ∀ g ∈ before, g.1 < p.seg)
    (ha : ∀ g ∈ after, p.seg < g.1) (hfuel : 2 * after.length + 1 ≤ fuel) :
    s.readLoop d limit fuel p n = some ((below limit (placeAll recSize after)).take n) := by
  obtain ⟨fuel, rfl⟩ : ∃ f, fuel = f + 1 := ⟨fuel - 1, by omega⟩
  rcases Nat.eq_zero_or_pos n with rfl | hn
  · rw [readLoop_stop (by omega) (.inl rfl), List.take_zero]
  rcases lt_or_ge p limit with hlt | hge
  · have hnone : s.sizes.get? p.seg = none := by
      rw [ODict.get?_eq_none, H.keys, hsegs, List.map_append, List.mem_append]
      rintro (h | h) <;> obtain ⟨g, hg, hgs⟩ := List.mem_map.1 h
      · have := hb g hg
        omega
      · have := ha g hg
        omega
    have hlater := Holds.later (hsegs ▸ H) (p := p.seg) (fun g hg => Nat.le_of_lt (hb g hg)) ha
    simp only [Spool.readLoop, hnone, hlater]
    rw [if_neg (by simp [hn.ne', hlt])]
    cases after with
    | nil => simp [below, placeAll]
    | cons g after =>
      exact readLoop_boundary hlimit (p := ⟨g.1, 0⟩) (i := 0) hsegs H (Nat.zero_le _) rfl
        (by simp at hfuel; omega)
  · rw [readLoop_stop (by omega) (.inr (not_lt.2 hge)), below, filter_beyond (not_lt.2 hge),
      List.take_nil]
    intro e he
    have hmem : e ∈ placeAll recSize segs := by
      rw [hsegs, placeAll_append]
      exact List.mem_append_right _ he
    exact ⟨(lt_start_of_after ha e he).le, start_lt_stop recSize_pos hmem⟩

/-! ## Reads -/

/-- What the log holds from `p` on, below the limit. -/
def between (segs : List (Nat × List Rec)) (p limit : Position) : List Entry :=
  below limit ((placeAll recSize segs).filter (fun e => p ≤ e.start))

theorem Holds.length (H : Holds s d segs) : s.sizes.length = segs.length := by
  rw [ODict.length, H.sizes, List.length_map]

/-- **Reading from a boundary of the log.** -/
theorem read_boundary (H : Holds s d segs) (hlimit : Boundary recSize segs limit) {p : Position}
    (hp : Boundary recSize segs p) (n : Nat) :
    s.read d p limit n = some ((between segs p limit).take n) := by
  obtain ⟨⟨seg, rs⟩, hg, i, hi, rfl⟩ := hp
  obtain ⟨before, after, rfl⟩ := List.append_of_mem hg
  have hlen := H.length
  rw [List.length_append, List.length_cons] at hlen
  rw [between, placeAll_from recSize_pos H.asc i, Spool.read]
  exact readLoop_boundary hlimit (p := mark recSize seg rs i) rfl H hi rfl (by omega)

theorem ascending_cut (hasc : Ascending segs) (seg : Nat) (h : seg ∉ segs.map (·.1)) :
    ∃ before after, segs = before ++ after ∧ (∀ g ∈ before, g.1 < seg) ∧
      (∀ g ∈ after, seg < g.1) := by
  induction segs with
  | nil => exact ⟨[], [], rfl, by simp, by simp⟩
  | cons g segs ih =>
    simp only [List.map_cons, List.mem_cons, not_or] at h
    obtain ⟨hg, hrest⟩ := List.pairwise_cons.1 hasc
    rcases Nat.lt_or_gt_of_ne h.1 with hlt | hgt
    · refine ⟨[], g :: segs, rfl, by simp, fun x hx => ?_⟩
      rcases List.mem_cons.1 hx with rfl | hx
      · exact hlt
      · exact hlt.trans (hg x hx)
    · obtain ⟨before, after, rfl, hb, ha⟩ := ih hrest h.2
      refine ⟨g :: before, after, rfl, fun x hx => ?_, ha⟩
      rcases List.mem_cons.1 hx with rfl | hx
      · exact hgt
      · exact hb x hx

/-- **Reading from a segment that is gone.** -/
theorem read_gap (H : Holds s d segs) (hlimit : Boundary recSize segs limit) {p : Position}
    (hp : p.seg ∉ segs.map (·.1)) (n : Nat) :
    s.read d p limit n = some ((between segs p limit).take n) := by
  obtain ⟨before, after, rfl, hb, ha⟩ := ascending_cut H.asc p.seg hp
  have hlen := H.length
  rw [List.length_append] at hlen
  rw [between, placeAll_from_gap hb ha, Spool.read]
  exact readLoop_gap hlimit rfl H hb ha (by omega)

end

end OTS.Receiver
