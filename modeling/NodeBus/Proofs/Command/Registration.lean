import NodeBus.Proofs.Command.Execution
import NodeBus.Session.Operation

/-!
# The catalogue keeps the first handler of a key

Handlers are offered to a catalogue one after the other (`offerAll`), and one that is refused leaves
it as it is. What is found under a key is then read off the offers: it is the first handler of that
key that came while there was room (`find?_offerAll`). So whoever is found is found ever after, and
the catalogue is a map of bounded size in which the first entry of a key wins.
-/

namespace NodeBus.Command.Catalogue

/-! ## Offers -/

/-- Offer a handler: why it is refused, if it is, and the catalogue afterwards. -/
def offer (c : Catalogue) (h : Handler) : Option Error × Catalogue :=
  match c.register h with
  | .ok c' => (none, c')
  | .error refusal => (some refusal, c)

/-- Offer handlers one after the other. -/
def offerAll (c : Catalogue) (offers : List Handler) : Catalogue :=
  offers.foldl (fun c h => (c.offer h).2) c

/-- The handlers that are not refused, in order. -/
def accepted (c : Catalogue) : List Handler → List Handler
  | [] => []
  | h :: offers =>
    if (c.offer h).1 = none then h :: (c.offer h).2.accepted offers
    else (c.offer h).2.accepted offers

/-- The handlers that come while there is room, in order. -/
def inTime (c : Catalogue) : List Handler → List Handler
  | [] => []
  | h :: offers =>
    if c.size < maxHandlers then h :: (c.offer h).2.inTime offers
    else (c.offer h).2.inTime offers

/-- Registrations on a node are offers to its catalogue. -/
theorem apply_register (n : Node) (h : Handler) :
    (Session.Operation.register h).apply n =
      (.registered (n.catalogue.offer h).1, { n with catalogue := (n.catalogue.offer h).2 }) := by
  simp only [Session.Operation.apply, offer]
  cases n.catalogue.register h <;> rfl

/-! ## One offer -/

section Offer

variable (c : Catalogue) (h : Handler)

/-- A full catalogue refuses whatever comes; one with room refuses what it has a handler for. -/
theorem offer_cases :
    (maxHandlers ≤ c.size ∧ c.offer h = (some .full, c)) ∨
    (c.size < maxHandlers ∧ (c.find? h.key).isSome ∧ c.offer h = (some .duplicate, c)) ∨
    (c.size < maxHandlers ∧ c.find? h.key = none ∧ c.offer h = (none, ⟨c.handlers ++ [h]⟩)) := by
  rw [offer, register]
  by_cases hfull : maxHandlers ≤ c.size
  · rw [if_pos hfull]
    exact .inl ⟨hfull, rfl⟩
  · rw [if_neg hfull]
    have hroom := Nat.lt_of_not_le hfull
    by_cases hfound : (c.find? h.key).isSome = true
    · rw [if_pos hfound]
      exact .inr (.inl ⟨hroom, hfound, rfl⟩)
    · rw [if_neg hfound]
      exact .inr (.inr ⟨hroom, Option.not_isSome_iff_eq_none.mp hfound, rfl⟩)

theorem offer_eq_of_refused (hrefused : (c.offer h).1 ≠ none) : (c.offer h).2 = c := by
  rcases c.offer_cases h with ⟨_, heq⟩ | ⟨_, _, heq⟩ | ⟨_, _, heq⟩
  · rw [heq]
  · rw [heq]
  · rw [heq] at hrefused
    exact absurd rfl hrefused

theorem handlers_offer :
    (c.offer h).2.handlers = c.handlers ++ if (c.offer h).1 = none then [h] else [] := by
  rcases c.offer_cases h with ⟨_, heq⟩ | ⟨_, _, heq⟩ | ⟨_, _, heq⟩ <;> simp [heq]

theorem size_offer_le (hsize : c.size ≤ maxHandlers) : (c.offer h).2.size ≤ maxHandlers := by
  rcases c.offer_cases h with ⟨_, heq⟩ | ⟨_, _, heq⟩ | ⟨hroom, _, heq⟩
  · rwa [heq]
  · rwa [heq]
  · rw [heq, size, List.length_append]
    exact hroom

theorem distinct_offer {c : Catalogue} (hc : c.Distinct) (h : Handler) :
    (c.offer h).2.Distinct := by
  rw [offer]
  split
  · exact distinct_register hc ‹_›
  · exact hc

/-- An offer is found under its key if there is room and nobody was found there before; all other
answers stay. -/
theorem find?_offer (key : Key) :
    (c.offer h).2.find? key =
      (c.find? key).or (if c.size < maxHandlers ∧ h.key = key then some h else none) := by
  rcases c.offer_cases h with ⟨hfull, heq⟩ | ⟨hroom, hfound, heq⟩ | ⟨hroom, hnone, heq⟩
  · rw [heq, if_neg (fun hand => Nat.not_lt_of_le hfull hand.1), Option.or_none]
  · rw [heq]
    by_cases hkey : h.key = key
    · subst hkey
      exact (Option.or_of_isSome hfound).symm
    · rw [if_neg (fun hand => hkey hand.2), Option.or_none]
  · rw [heq]
    by_cases hkey : h.key = key <;> simp [find?, hkey, hroom]

end Offer

/-! ## Offers one after the other -/

section OfferAll

variable {c : Catalogue} (offers : List Handler)

theorem handlers_offerAll (c : Catalogue) :
    (c.offerAll offers).handlers = c.handlers ++ c.accepted offers := by
  induction offers generalizing c with
  | nil => exact (List.append_nil _).symm
  | cons h offers ih =>
    rw [offerAll, List.foldl_cons, ← offerAll, ih, handlers_offer, accepted]
    split <;> simp

theorem size_offerAll_le (hsize : c.size ≤ maxHandlers) :
    (c.offerAll offers).size ≤ maxHandlers := by
  induction offers generalizing c with
  | nil => exact hsize
  | cons h offers ih => exact ih (c.size_offer_le h hsize)

theorem distinct_offerAll (hc : c.Distinct) : (c.offerAll offers).Distinct := by
  induction offers generalizing c with
  | nil => exact hc
  | cons h offers ih => exact ih (distinct_offer hc h)

/-- Who is found: whoever was found before, or else the first of the key that came in time. -/
theorem find?_offerAll (c : Catalogue) (key : Key) :
    (c.offerAll offers).find? key =
      (c.find? key).or ((c.inTime offers).find? (·.key = key)) := by
  induction offers generalizing c with
  | nil => exact Option.or_none.symm
  | cons h offers ih =>
    rw [offerAll, List.foldl_cons, ← offerAll, ih, find?_offer, Option.or_assoc, inTime]
    by_cases hroom : c.size < maxHandlers
    · by_cases hkey : h.key = key <;> simp [hroom, hkey]
    · simp [hroom]

/-- Whoever is found is found whatever is offered later. -/
theorem find?_offerAll_of_found {key : Key} {h : Handler} (hfound : c.find? key = some h) :
    (c.offerAll offers).find? key = some h := by
  rw [find?_offerAll, hfound]
  rfl

end OfferAll

/-- Whatever handlers are registered one after the other, from an empty catalogue on: the catalogue
holds those that were not refused, in order, eight at most and of different keys; under each key
the first handler is found that came while there was room, or nobody if there was none, and whoever
is found is found ever after. The next handler is refused as too many exactly if there are eight,
whatever its key, as a duplicate exactly if there is room and its key is there, and then nothing
changes. On a node, each registration answers this and leaves the catalogue like this. -/
theorem first_in_time_found (offers : List Handler) :
    let c := empty.offerAll offers
    (c.handlers = empty.accepted offers ∧ c.size ≤ maxHandlers ∧ c.Distinct) ∧
    (∀ key, c.find? key = (empty.inTime offers).find? (·.key = key)) ∧
    (∀ key h later, c.find? key = some h → (c.offerAll later).find? key = some h) ∧
    ∀ h, ((c.offer h).1 = some .full ↔ c.size = maxHandlers) ∧
      ((c.offer h).1 = some .duplicate ↔ c.size ≠ maxHandlers ∧ (c.find? h.key).isSome) ∧
      ((c.offer h).1 ≠ none →
        (c.offer h).2.size = c.size ∧ ∀ key, (c.offer h).2.find? key = c.find? key) ∧
      ∀ n : Node, n.catalogue = c → (Session.Operation.register h).apply n =
        (.registered (c.offer h).1, { n with catalogue := (c.offer h).2 }) := by
  intro c
  have hsize : c.size ≤ maxHandlers := size_offerAll_le offers (Nat.zero_le _)
  refine ⟨⟨handlers_offerAll offers empty, hsize, distinct_offerAll offers distinct_empty⟩,
    find?_offerAll offers empty, fun key h later => find?_offerAll_of_found later, fun h => ?_⟩
  refine ⟨?_, ?_, fun hrefused => ?_, fun n hn => ?_⟩
  · rcases c.offer_cases h with ⟨hfull, heq⟩ | ⟨hroom, _, heq⟩ | ⟨hroom, _, heq⟩
    · simp [heq, Nat.le_antisymm hsize hfull]
    · simp [heq, Nat.ne_of_lt hroom]
    · simp [heq, Nat.ne_of_lt hroom]
  · rcases c.offer_cases h with ⟨hfull, heq⟩ | ⟨hroom, hfound, heq⟩ | ⟨_, hnone, heq⟩
    · simp [heq, Nat.le_antisymm hsize hfull]
    · simp [heq, Nat.ne_of_lt hroom, hfound]
    · simp [heq, hnone]
  · rw [offer_eq_of_refused c h hrefused]
    exact ⟨rfl, fun _ => rfl⟩
  · rw [← hn]
    exact apply_register n h

/-- The second handler has the byte of a known cluster and is no duplicate, the third is one. When
there are eight, one of a key that is there is one too many. -/
theorem first_in_time_found_nine :
    let key (i : Nat) : Key := ⟨.unknown (.ofNat i), 1⟩
    let offers : List Handler := .ping :: .silent (key 0) :: .constant .ping 7 ::
      (List.range 6).map fun i => .silent (key (i + 2))
    let c := empty.offerAll offers
    c.size = 8 ∧ (c.offer (.echo .ping)).1 = some .full ∧
      (∃ h, c.find? .ping = some h ∧ (c.offerAll [.echo .ping]).find? .ping = some h) ∧
      (c.offer (.echo .ping)).2.size = 8 := by
  intro key offers c
  have hsize : c.size = 8 := by decide
  have hfound : (c.find? .ping).isSome = true := by decide
  obtain ⟨h, hh⟩ := Option.isSome_iff_exists.mp hfound
  obtain ⟨_, _, hstays, hoffer⟩ := first_in_time_found offers
  obtain ⟨hfull, _, hrefused, _⟩ := hoffer (.echo .ping)
  have hrefusal := hfull.mpr hsize
  have hkept := (hrefused (by rw [hrefusal]; simp)).1
  exact ⟨hsize, hrefusal, ⟨h, hh, hstays _ _ _ hh⟩, hkept.trans hsize⟩

end NodeBus.Command.Catalogue
