import NodeBus.Proofs.Frame.Promptness

/-!
# A receiver recovers

Bytes in which the magic bytes are never next to each other are noise. A receiver that
holds only noise drops it when a frame comes and returns the frame with its last byte,
answering nothing before (`feedAll_frame`).

A receiver holds less than its capacity (`Promptness`), and what it holds it received
last. So after as many bytes without the first magic byte it holds noise, whatever it
received before (`frame_after_silence`).
-/

namespace NodeBus.Frame

/-! ## Noise -/

/-- The magic bytes are never next to each other. -/
def Noise (s : List UInt8) : Prop := ¬ [magic₀, magic₁] <:+: s

theorem noise_nil : Noise [] := by
  intro h
  have := h.length_le
  simp at this

theorem noise_of_notMem {s : List UInt8} (h : magic₀ ∉ s) : Noise s :=
  fun hpart => h (hpart.subset List.mem_cons_self)

theorem Noise.tail {b : UInt8} {s : List UInt8} (h : Noise (b :: s)) : Noise s :=
  fun hpart => h (hpart.trans (List.suffix_cons b s).isInfix)

theorem not_noise_magic (s : List UInt8) : ¬ Noise (magic₀ :: magic₁ :: s) :=
  fun h => h ⟨[], s, rfl⟩

/-! ## The beginning of a frame -/

/-- A piece of a frame from its first byte on starts with as much of the magic bytes as it
is long. -/
theorem front_of_piece {f g : List UInt8} {view : Frame} (hf : decode f = .ok view)
    (hg : g <+: f) (hne : g ≠ []) : g = [magic₀] ∨ ∃ rest, g = magic₀ :: magic₁ :: rest := by
  obtain ⟨low, high, rest, rfl, _⟩ := header_of_decode hf
  obtain ⟨later, hlater⟩ := hg
  match g with
  | [] => exact absurd rfl hne
  | [b] =>
    cases hlater
    exact .inl rfl
  | b :: b' :: g =>
    obtain ⟨rfl, rfl, _⟩ := by simpa only [List.cons_append, List.cons.injEq] using hlater
    exact .inr ⟨g, rfl⟩

namespace Receiver

variable {capacity : Nat}

theorem settle_of_noise {w : Window} {noise g : List UInt8} (hnoise : Noise noise)
    (hg : g = [magic₀] ∨ ∃ rest, g = magic₀ :: magic₁ :: rest) (hw : w.toList = noise ++ g) :
    (settle w).toList = g := by
  have hfirst : ∃ rest, g = magic₀ :: rest := by
    rcases hg with rfl | ⟨rest, rfl⟩ <;> exact ⟨_, rfl⟩
  obtain ⟨rest, hrest⟩ := hfirst
  -- The noise goes a byte at a time, and what is left of it is still noise.
  fun_induction settle w generalizing noise with
  | case1 w hnone =>
    rw [Window.get?_eq_getElem?, hw, List.getElem?_eq_none_iff] at hnone
    simp [hrest] at hnone
  | case2 w first hw₀ _ hne ih =>
    rw [Window.get?_eq_getElem?, hw] at hw₀
    cases noise with
    | nil =>
      rw [hrest] at hw₀
      cases hw₀
      exact absurd rfl hne
    | cons b noise => exact ih hnoise.tail (by rw [Window.toList_drop, hw]; rfl)
  | case3 w first hw₀ _ _ hnone =>
    rw [Window.get?_eq_getElem?, hw, List.getElem?_eq_none_iff] at hnone
    cases noise with
    | nil => exact hw
    | cons b noise => simp [hrest] at hnone
  | case4 w first hw₀ _ heq second hw₁ hne ih =>
    rw [Window.get?_eq_getElem?, hw] at hw₀ hw₁
    cases noise with
    | nil =>
      rcases hg with rfl | ⟨rest, rfl⟩
      · cases hw₁
      · cases hw₁
        exact absurd rfl hne
    | cons b noise => exact ih hnoise.tail (by rw [Window.toList_drop, hw]; rfl)
  | case5 w first hw₀ _ heq second hw₁ heq' =>
    rw [Window.get?_eq_getElem?, hw] at hw₀ hw₁
    obtain rfl : first = magic₀ := Decidable.not_not.mp heq
    obtain rfl : second = magic₁ := Decidable.not_not.mp heq'
    -- The window starts with both magic bytes, which noise followed by a frame does not.
    cases noise with
    | nil => exact hw
    | cons b noise =>
      cases noise with
      | nil =>
        rw [hrest] at hw₁
        cases hw₁
      | cons b' noise =>
        cases hw₀
        cases hw₁
        exact absurd hnoise (not_noise_magic noise)

/-! ## Judging a frame while it comes -/

/-- As long as bytes of a frame are missing, the candidate is incomplete. -/
theorem judge_of_prefix {w : Window} {f : List UInt8} {view : Frame} (hf : decode f = .ok view)
    (hfits : f.length ≤ capacity) (hw : w.toList <+: f) :
    judge capacity w = if w.toList = f then .frame f.length else .incomplete := by
  obtain ⟨low, high, rest, hheader, hlength⟩ := header_of_decode hf
  -- Each byte that is looked at is a byte of the frame.
  have hbyte {i : Nat} {b : UInt8} (h : w.toList[i]? = some b) : f[i]? = some b := by
    obtain ⟨later, hlater⟩ := hw
    rw [← hlater]
    exact getElem?_append_of_some h later
  have hshort (h : w.toList.length < f.length) : w.toList ≠ f := fun heq => by
    rw [heq] at h
    exact Nat.lt_irrefl _ h
  have hoverhead := overhead_le_of_decode hf
  simp only [overhead, headerSize, checksumSize] at hoverhead
  rw [judge]
  simp only [Window.get?_eq_getElem?, Window.size_eq_length, Window.take_eq]
  split
  · rename_i hnone
    rw [List.getElem?_eq_none_iff] at hnone
    rw [if_neg (hshort (by omega))]
  · rename_i v hv
    have hversion := hbyte hv
    rw [hheader] at hversion
    cases hversion
    rw [if_neg (by simp)]
    split
    · rename_i low' high' hlow hhigh
      have hlow := hbyte hlow
      have hhigh := hbyte hhigh
      rw [hheader] at hlow hhigh
      cases hlow
      cases hhigh
      rw [← hlength, if_neg (by omega)]
      split
      · rename_i hmissing
        rw [if_neg (hshort hmissing)]
      · rename_i hpresent
        obtain hw := hw.eq_of_length_le (Nat.le_of_not_lt hpresent)
        rw [if_pos hw, hw, List.take_length, hf]
    · rename_i hnone
      refine (if_neg (hshort (Nat.lt_of_not_le fun hle => ?_))).symm
      exact hnone _ _ (List.getElem?_eq_getElem (by omega)) (List.getElem?_eq_getElem (by omega))

theorem hunt_of_incomplete {rejection : Option Error} {w : Window}
    (h : judge capacity (settle w) = .incomplete) :
    hunt capacity rejection w = (rejection, none, settle w) := by
  rw [hunt]
  split <;> simp_all

theorem hunt_of_frame {rejection : Option Error} {w : Window} {n : Nat}
    (h : judge capacity (settle w) = .frame n) :
    hunt capacity rejection w = (rejection, some n, settle w) := by
  rw [hunt]
  split <;> simp_all

/-- A byte of a frame in front of which only noise is held: the noise goes, and the frame is
returned, and goes with the next byte, if this is its last one. -/
theorem feed_of_prefix {r : Receiver capacity} {noise g f : List UInt8} {b : UInt8} {view : Frame}
    (hf : decode f = .ok view) (hfits : f.length ≤ capacity) (hnoise : Noise noise)
    (hpending : r.pending = noise ++ g) (hroom : r.pending.length < capacity)
    (hg : g ++ [b] <+: f) :
    if g ++ [b] = f then (r.feed b).1 = .ok (some f) ∧ (r.feed b).2.pending = []
    else (r.feed b).1 = .ok none ∧ (r.feed b).2.pending = g ++ [b] := by
  have hwindow : ((r.held.drop r.returned).push b).toList = noise ++ (g ++ [b]) := by
    rw [Window.toList_push, Window.toList_drop, ← List.append_assoc, ← hpending]
    rfl
  have hsettle := settle_of_noise hnoise (front_of_piece hf hg (by simp)) hwindow
  have hjudge := judge_of_prefix (w := settle ((r.held.drop r.returned).push b)) hf hfits
    (by rw [hsettle]; exact hg)
  rw [hsettle] at hjudge
  rcases feed_cases r b with ⟨hfull, _⟩ | ⟨_, rejection, found, w, hhunt, hleft, hgiven⟩
  · omega
  rw [hgiven, hleft]
  split
  · rename_i hcomplete
    rw [if_pos hcomplete] at hjudge
    cases (hunt_of_frame hjudge).symm.trans hhunt
    refine ⟨by simp only [Window.take_eq, hsettle, hcomplete, List.take_length], ?_⟩
    rw [pending, hsettle, hcomplete, Option.getD_some, List.drop_length]
  · rename_i hmissing
    rw [if_neg hmissing] at hjudge
    cases (hunt_of_incomplete hjudge).symm.trans hhunt
    exact ⟨rfl, hsettle⟩

/-! ## A frame after noise -/

/-- The rest of a frame that has begun. -/
theorem feedAll_of_prefix {r : Receiver capacity} {noise g f rest : List UInt8} {b : UInt8}
    {view : Frame} (hf : decode f = .ok view) (hfits : f.length ≤ capacity) (hnoise : Noise noise)
    (hpending : r.pending = noise ++ g) (hroom : r.pending.length < capacity)
    (hrest : g ++ b :: rest = f) :
    (r.feedAll (b :: rest)).1 = List.replicate rest.length (.ok none) ++ [.ok (some f)] ∧
      (r.feedAll (b :: rest)).2.pending = [] := by
  induction rest generalizing r noise g b with
  | nil =>
    have hfeed := feed_of_prefix hf hfits hnoise hpending hroom ⟨[], by rw [List.append_nil, hrest]⟩
    rw [if_pos hrest] at hfeed
    refine ⟨?_, hfeed.2⟩
    simp only [feedAll, hfeed.1]
    rfl
  | cons c rest ih =>
    have hrest' : (g ++ [b]) ++ c :: rest = f := by rw [List.append_assoc]; exact hrest
    have hlength := congrArg List.length hrest'
    rw [List.length_append, List.length_cons] at hlength
    have hfeed := feed_of_prefix hf hfits hnoise hpending hroom ⟨c :: rest, hrest'⟩
    have hmissing : g ++ [b] ≠ f := fun heq => by rw [heq] at hlength; omega
    rw [if_neg hmissing] at hfeed
    -- From here on the noise is gone.
    obtain ⟨hgiven, hleft⟩ := ih noise_nil hfeed.2 (by rw [hfeed.2]; omega) hrest'
    refine ⟨?_, hleft⟩
    change (r.feed b).1 :: ((r.feed b).2.feedAll (c :: rest)).1 = _
    rw [hfeed.1, hgiven]
    rfl

/-- A receiver that holds only noise returns a frame with its last byte, and answers
nothing before. -/
theorem feedAll_frame {r : Receiver capacity} {f : List UInt8} {view : Frame}
    (hf : decode f = .ok view) (hfits : f.length ≤ capacity) (hnoise : Noise r.pending)
    (hroom : r.pending.length < capacity) :
    (r.feedAll f).1 = List.replicate (f.length - 1) (.ok none) ++ [.ok (some f)] := by
  cases f with
  | nil => cases hf
  | cons b rest =>
    have hfeed := feedAll_of_prefix hf hfits hnoise (List.append_nil _).symm hroom
      (List.nil_append _)
    exact hfeed.1

theorem pending_feedAll_frame {r : Receiver capacity} {f : List UInt8} {view : Frame}
    (hf : decode f = .ok view) (hfits : f.length ≤ capacity) (hnoise : Noise r.pending)
    (hroom : r.pending.length < capacity) : (r.feedAll f).2.pending = [] := by
  cases f with
  | nil => cases hf
  | cons b rest =>
    have hfeed := feedAll_of_prefix hf hfits hnoise (List.append_nil _).symm hroom
      (List.nil_append _)
    exact hfeed.2

/-! ## Silence -/

theorem pending_suffix {r : Receiver capacity} (h : r.Roomy) (s : List UInt8) :
    (r.feedAll s).2.pending <:+ r.pending ++ s := by
  have hwalk := walk_feedAll h s []
  simp only [List.append_nil] at hwalk
  exact hwalk.suffix

/-- Whatever a receiver was fed, and in whatever state that left it: after as many bytes as
its capacity, none of them the first magic byte, it returns every frame that fits with the
frame's last byte and answers nothing to the bytes before. -/
theorem frame_after_silence {s silence f : List UInt8} {view : Frame}
    (hsilence : ∀ b ∈ silence, b ≠ magic₀) (hlong : capacity ≤ silence.length)
    (hf : decode f = .ok view) (hfits : f.length ≤ capacity) :
    (((fresh : Receiver capacity).feedAll (s ++ silence)).2.feedAll f).1 =
      List.replicate (f.length - 1) (.ok none) ++ [.ok (some f)] := by
  have hoverhead := overhead_le_of_decode hf
  have hroom :
      ((fresh : Receiver capacity).feedAll (s ++ silence)).2.pending.length < capacity := by
    apply roomy_feedAll roomy_fresh
    simp only [headerSize, overhead, checksumSize] at hoverhead ⊢
    omega
  -- What is held was received last, and it is shorter than the silence.
  have hsuffix : ((fresh : Receiver capacity).feedAll (s ++ silence)).2.pending <:+ silence := by
    have hlast := pending_suffix (roomy_fresh : (fresh : Receiver capacity).Roomy) (s ++ silence)
    exact List.suffix_of_suffix_length_le hlast (List.suffix_append s silence) (by omega)
  have hnoise : Noise ((fresh : Receiver capacity).feedAll (s ++ silence)).2.pending :=
    noise_of_notMem fun hmem => hsilence _ (hsuffix.subset hmem) rfl
  exact feedAll_frame hf hfits hnoise hroom

/-- A frame after silence that was left in the middle of another one. -/
theorem frame_after_silence_broken_off :
    let ping : List UInt8 := [0xAC, 0xDA, 1, 1, 0, 3, 0, 0, 1, 0, 0x98, 0xF4]
    let silence : List UInt8 := List.replicate 12 0
    (∀ b ∈ silence, b ≠ magic₀) ∧ 12 ≤ silence.length ∧ decode ping = .ok ⟨1, 0, [0, 1, 0]⟩ ∧
      ping.length ≤ 12 ∧
      (((fresh : Receiver 12).feedAll (ping.take 11 ++ silence)).2.feedAll ping).1 =
        List.replicate 11 (.ok none) ++ [.ok (some ping)] := by
  intro ping silence
  have hsilence : ∀ b ∈ silence, b ≠ magic₀ := by
    intro b hb
    rw [List.eq_of_mem_replicate hb]
    decide
  have hread : decode ping = .ok ⟨1, 0, [0, 1, 0]⟩ :=
    decode_eq_ok_iff.mpr ⟨by decide, by decide +kernel⟩
  exact ⟨hsilence, by decide, hread, by decide,
    frame_after_silence hsilence (by decide) hread (by decide)⟩

end Receiver

end NodeBus.Frame
