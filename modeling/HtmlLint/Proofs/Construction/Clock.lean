import HtmlLint.Proofs.Construction.Course

/-!
# The byte order of a construction

The tokens of a source come one after the other, and so does what is built from them: after a
directive no element is opened or closed at a byte before the end of that directive.  This is read
off the course of a construction (`Course.inByteOrder`), because the byte that the construction has
reached never goes back.
-/

namespace HtmlLint

/-! ## When moments are -/

namespace Moment

/-- A directive and a new element do not start, and an element that is complete does not end, before
byte `k`. -/
def NotBefore (k : Nat) (m : Moment) : Prop :=
  match m.event with
  | .directive _ _ _ location => k ≤ location.offset
  | .tagOpen _ location => k ≤ location.offset
  | .elementReady id _ => ∃ n stop, m.document.get? id = some n ∧ n.endOffset = some stop ∧ k ≤ stop
  | _ => True

/-- If the first moment is a directive, the second is not before its end. -/
def Precedes (m m' : Moment) : Prop :=
  match m.event with
  | .directive _ _ _ location => m'.NotBefore location.stop
  | _ => True

/-- A directive stops at byte `k` at the latest, and names its rules before it stops. -/
def EndsBy (k : Nat) (m : Moment) : Prop :=
  match m.event with
  | .directive _ rules _ location =>
    location.stop ≤ k ∧ ∀ r ∈ rules, r.location.offset < location.stop
  | _ => True

/-- What is not before a byte is not before an earlier one. -/
private theorem NotBefore.mono {k k' : Nat} {m : Moment} (h : m.NotBefore k') (hk : k ≤ k') :
    m.NotBefore k := by
  simp only [NotBefore] at h ⊢
  split at h
  · exact Nat.le_trans hk h
  · exact Nat.le_trans hk h
  · obtain ⟨n, stop, hn, hs, hle⟩ := h
    exact ⟨n, stop, hn, hs, Nat.le_trans hk hle⟩
  · trivial

/-- A directive that stops by a byte stops by every later one. -/
theorem EndsBy.mono {k k' : Nat} {m : Moment} (h : m.EndsBy k) (hk : k ≤ k') : m.EndsBy k' := by
  simp only [EndsBy] at h ⊢
  split at h
  · exact ⟨Nat.le_trans h.1 hk, h.2⟩
  · trivial

/-- Two moments on both sides of a byte are in order. -/
private theorem EndsBy.precedes {k : Nat} {m m' : Moment} (h : m.EndsBy k) (h' : m'.NotBefore k) :
    m.Precedes m' := by
  simp only [EndsBy] at h
  simp only [Precedes]
  split at h
  · exact h'.mono h.1
  · trivial

end Moment

/-- The moments are in byte order, not before byte `low`, and their directives stop by byte
`high`. -/
structure InByteOrder (low high : Nat) (ms : List Moment) : Prop where
  notBefore : ∀ m ∈ ms, m.NotBefore low
  endsBy : ∀ m ∈ ms, m.EndsBy high
  pairwise : ms.Pairwise Moment.Precedes

namespace InByteOrder

variable {low mid high : Nat} {ms later : List Moment}

/-- No moments are in byte order. -/
private theorem nil (low high : Nat) : InByteOrder low high [] :=
  ⟨by simp, by simp, .nil⟩

/-- One moment is in byte order if it lies between the two bytes. -/
private theorem singleton {m : Moment} (h : m.NotBefore low) (h' : m.EndsBy high) :
    InByteOrder low high [m] where
  notBefore _ hm := List.mem_singleton.mp hm ▸ h
  endsBy _ hm := List.mem_singleton.mp hm ▸ h'
  pairwise := List.pairwise_singleton ..

/-- Moments up to a byte, and moments from there on. -/
private theorem append (h : InByteOrder low mid ms) (h' : InByteOrder mid high later)
    (hlow : low ≤ mid) (hhigh : mid ≤ high) : InByteOrder low high (ms ++ later) where
  notBefore m hm := by
    cases List.mem_append.mp hm with
    | inl hm => exact h.notBefore m hm
    | inr hm => exact (h'.notBefore m hm).mono hlow
  endsBy m hm := by
    cases List.mem_append.mp hm with
    | inl hm => exact (h.endsBy m hm).mono hhigh
    | inr hm => exact h'.endsBy m hm
  pairwise :=
    List.pairwise_append.mpr ⟨h.pairwise, h'.pairwise, fun m hm m' hm' =>
      (h.endsBy m hm).precedes (h'.notBefore m' hm')⟩

end InByteOrder

/-! ## Advances -/

variable {source : List Char} {x y : Progress} {ms : List Moment}

/-- No advance goes back. -/
private theorem Advance.reached_le (h : Advance source x ms y) : x.reached ≤ y.reached := by
  cases h with
  | remark he hp hk hb => exact hk
  | store a hp hk => exact Nat.le_trans hk.1.1 (Nat.le_of_lt hk.1.2)
  | widen l selfClosed hp hk => exact hk
  | text content location foreign hp hk hsize => exact Nat.le_trans hk (Nat.le_add_right _ _)
  | announce tag location foreign void hp => exact Nat.le_refl _
  | close location stop hn hp hk => exact hk
  | place hk hsize => exact Nat.le_trans hk (Nat.le_add_right _ _)

/-- What an advance shows lies between the bytes that are reached before it and after it. -/
private theorem Advance.inByteOrder (h : Advance source x ms y) (hs : x.stage.Sound) :
    InByteOrder x.reached y.reached ms := by
  -- only a directive, a closing and a new element have a place on the clock
  cases h with
  | @remark d ids tag k k' e he hp hk hb =>
    cases e with
    | directive action rules parent location => exact .singleton hb.1 hb.2
    | parseError | doctype | invalidDirective => exact .singleton trivial trivial
    | domLoad | tagOpen | tagClose | elementReady | attr | domReady => exact he.elim
  | store a hp hk => exact .singleton trivial trivial
  | widen | text | announce => exact .nil _ _
  | @close d id ids new kind k location stop hn hp hk =>
    -- an element is ready at the end that closing it wrote into the document it shows
    have hid : id < (d.close id kind stop).size := by
      rw [Document.size_close]
      exact hs.lt_size (List.mem_cons_self ..)
    obtain ⟨n, hn⟩ := Document.exists_get?_of_lt (hs.lt_size (List.mem_cons_self ..))
    have hclosed : ((d.close id kind stop).showing new).get? id =
        some { n with closed := some kind, endOffset := some (max stop n.location.stop) } := by
      rw [Document.get?_showing_of_lt hid, Document.get?_close, if_pos rfl, hn]
      rfl
    have htag : InByteOrder k k
        [⟨.tagClose id (new.map Node.id) kind location, (d.close id kind stop).showing new⟩] :=
      .singleton trivial trivial
    have hready :
        InByteOrder k stop [⟨.elementReady id location, (d.close id kind stop).showing new⟩] :=
      .singleton ⟨_, _, hclosed, rfl, Nat.le_trans hk (Nat.le_max_left _ _)⟩ trivial
    exact htag.append hready (Nat.le_refl _) hk
  | place hk hsize => exact .singleton hk trivial

/-- What a course shows is in byte order, between the bytes that are reached before it and after
it. -/
theorem Course.inByteOrder (h : Course source x ms y) (hs : x.stage.Sound) :
    x.reached ≤ y.reached ∧ InByteOrder x.reached y.reached ms := by
  induction h with
  | done x => exact ⟨Nat.le_refl _, .nil _ _⟩
  | move first _ ih =>
    obtain ⟨hle, hlater⟩ := ih (hs.move first.move)
    exact ⟨Nat.le_trans first.reached_le hle,
      (first.inByteOrder hs).append hlater first.reached_le hle⟩

end HtmlLint
