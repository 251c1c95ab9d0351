/-
Normal forms of requests.

A request is put together in steps, which ask for more resources or set its strictness. What is compiled in the end is
the first occurrence of each resource, other than the root, under the last strictness that was set. A name among these
that is not registered is left out. Nothing else depends on it, whether it is the parent of one resource or a declared
child of another: under that name there is nothing to select or to embed.

Results:
- `foldl_apply`: what a request is after some steps.
- `compile_congr_wanted`: a request is compiled by its root, what it wants and its strictness.
- `Registry.place_registered`: names that are not registered have no influence on placing.
- `compile_registeredOnly`: so a lenient answer without them is the same, but for what is left out.
- `requests_normalized`: every sequence of steps gives what its normal form gives, and in lenient mode the same without
  the unregistered names.
-/
import ResourceQuery.Proofs.Coverage

namespace ResourceQuery

variable {r : Registry} {root : ResourceId} {wanted : List ResourceId} {q q' : Request}

/-! ## Requests in steps -/

namespace Request

/-- one step of putting a request together -/
inductive Step where
  | add (ids : List ResourceId)
  | setStrict (value : Bool)

/-- what the step asks for -/
def Step.ids : Step → List ResourceId
  | add ids => ids
  | setStrict _ => []

/-- the strictness that the step sets -/
def Step.strict? : Step → Option Bool
  | add _ => none
  | setStrict value => some value

def apply (q : Request) : Step → Request
  | .add ids => q.add ids
  | .setStrict value => q.withStrict value

/-- the request after the steps, from an empty one -/
def ofSteps (root : ResourceId) (steps : List Step) : Request := steps.foldl apply { root }

/-- all that the steps ask for, each resource once and not the root, under the last strictness -/
def normalForm (root : ResourceId) (steps : List Step) : Request where
  root
  ids := ((steps.flatMap Step.ids).filter (· ≠ root)).eraseDups
  strict := (steps.filterMap Step.strict?).getLast?.getD false

theorem apply_eq (q : Request) (step : Step) :
    q.apply step = ⟨q.root, q.ids ++ step.ids, step.strict?.getD q.strict⟩ := by
  cases step with
  | add ids => rfl
  | setStrict value => simp [apply, withStrict, Step.ids, Step.strict?]

theorem foldl_apply (q : Request) (steps : List Step) :
    steps.foldl apply q =
      ⟨q.root, q.ids ++ steps.flatMap Step.ids, (steps.filterMap Step.strict?).getLast?.getD q.strict⟩ := by
  induction steps generalizing q with
  | nil => simp
  | cons step steps ih =>
    rw [List.foldl_cons, ih, apply_eq]
    cases hs : step.strict? with
    | none => simp [hs]
    | some value => simp [hs, List.getLast?_cons]

/-! ## What is compiled of a request -/

theorem compile_congr_wanted (hroot : q.root = q'.root) (hwanted : q.wanted = q'.wanted)
    (hstrict : q.strict = q'.strict) : q.compile r = q'.compile r := by
  unfold compile draft skipped resources
  simp only [hroot, hwanted, hstrict]

theorem wanted_normalForm (root : ResourceId) (steps : List Step) :
    (normalForm root steps).wanted = (ofSteps root steps).wanted := by
  have hids : (ofSteps root steps).wanted = ((steps.flatMap Step.ids).filter (· ≠ root)).eraseDups := by
    rw [ofSteps, foldl_apply]
    rfl
  -- filtering and removing repeats a second time changes nothing
  have hroot : ∀ id ∈ (ofSteps root steps).wanted, id ≠ root := by
    intro id hid
    rw [hids, List.mem_eraseDups, List.mem_filter] at hid
    exact of_decide_eq_true hid.2
  calc (normalForm root steps).wanted
      = (((ofSteps root steps).wanted).filter (· ≠ root)).eraseDups := by rw [hids]; rfl
    _ = (ofSteps root steps).wanted.eraseDups := by
        rw [List.filter_eq_self.2 fun id hid => decide_eq_true (hroot id hid)]
    _ = (ofSteps root steps).wanted := eraseDups_of_nodup (nodup_eraseDups _)

end Request

/-! ## Names that are not registered -/

namespace Registry

/-- a parent that is not registered is no carrier, requested or not -/
theorem carrier?_registered (id : ResourceId) (m : Metadata) :
    r.carrier? root (wanted.filter r.contains) id m = r.carrier? root wanted id m := by
  unfold carrier?
  cases m.parent with
  | none => rfl
  | some parent =>
    cases hp : r.get? parent with
    | none => simp [hp]
    | some n =>
      have hreg : r.contains parent = true := contains_iff.2 (mem_ids_of_get? hp)
      simp [hreg]

/-- a child that is not registered is not embedded, requested or not -/
theorem selection_registered (t : ResourceId) (m : Metadata) :
    r.selection (wanted.filter r.contains) t m = r.selection wanted t m := by
  unfold selection embeddable
  refine congrArg (Selection.mk t m) ?_
  rw [List.filterMap_filter, List.filterMap_filter]
  refine List.filterMap_congr ?_
  intro c _
  cases hc : r.get? c with
  | none => simp
  | some n =>
    have hreg : r.contains c = true := contains_iff.2 (mem_ids_of_get? hc)
    simp [hreg]

theorem place_registered (d : Draft) (id : ResourceId) :
    r.place root (wanted.filter r.contains) d id = r.place root wanted d id := by
  unfold place
  simp only [carrier?_registered, selection_registered]

theorem place_of_not_contains {id : ResourceId} (h : ¬ r.contains id = true) (d : Draft) :
    r.place root wanted d id = .ok d := by
  have hnone : r.get? id = none := get?_eq_none_iff.2 (mt contains_iff.2 h)
  unfold place
  simp only [hnone]

/-- a run passes over them -/
theorem foldlM_place_registered (ids : List ResourceId) (d : Draft) :
    (ids.filter r.contains).foldlM (r.place root (wanted.filter r.contains)) d =
      ids.foldlM (r.place root wanted) d := by
  have hpass : ∀ (d : Draft) (id : ResourceId),
      (if r.contains id = true then r.place root (wanted.filter r.contains) d id else pure d) =
        r.place root wanted d id := by
    intro d id
    split_ifs with h
    · exact place_registered d id
    · exact (place_of_not_contains h d).symm
  rw [List.foldlM_filter]
  simp only [hpass]

end Registry

/-- the answer with no word about what is not registered -/
def CompiledQuery.withoutUnregistered (out : CompiledQuery) : CompiledQuery :=
  { out with skipped := out.skipped.filter (·.reason ≠ .unregistered) }

namespace Request

/-- the request without names that are not registered -/
def registeredOnly (q : Request) (r : Registry) : Request := { q with ids := q.ids.filter r.contains }

theorem wanted_registeredOnly (q : Request) (r : Registry) :
    (q.registeredOnly r).wanted = q.wanted.filter r.contains := by
  rw [wanted, wanted, ← eraseDups_filter]
  exact congrArg List.eraseDups (List.filter_comm _ _ _)

theorem draft_registeredOnly (q : Request) (r : Registry) (m : Metadata) :
    (q.registeredOnly r).draft r m = q.draft r m := by
  unfold draft
  simp only [wanted_registeredOnly, Registry.foldlM_place_registered]
  rfl

theorem skipped_registeredOnly (q : Request) (r : Registry) (d : Draft) :
    (q.registeredOnly r).skipped r d = (q.skipped r d).filter (·.reason ≠ .unregistered) := by
  unfold skipped
  rw [wanted_registeredOnly, List.filter_map, List.filter_comm]
  refine congrArg (List.map _) (List.filter_congr ?_)
  intro id _
  cases hreg : r.contains id <;> simp [hreg]

/-- a lenient request misses an unregistered name in no other place -/
theorem compile_registeredOnly (h : q.strict = false) :
    (q.registeredOnly r).compile r = (q.compile r).map CompiledQuery.withoutUnregistered := by
  have hroot : (q.registeredOnly r).root = q.root := rfl
  have hstrict : (q.registeredOnly r).strict = false := h
  have hresources : ∀ d, (q.registeredOnly r).resources d = q.resources d := fun _ => rfl
  unfold compile
  rw [hroot]
  cases r.get? q.root with
  | none => rfl
  | some root =>
    simp only [draft_registeredOnly]
    cases q.draft r root with
    | error e => rfl
    | ok d =>
      simp [bind, Except.bind, Except.map, h, hstrict, hresources, skipped_registeredOnly,
        CompiledQuery.withoutUnregistered]

end Request

/-! ## Main result -/

/-- **Normal form of a request.** A request put together in steps has the answer, or the error, of its normal form: all
that the steps ask for, without the root and without repeats, under the strictness set last, or lenient if none was set.
If that is lenient, the names that are not registered can be removed as well: the error is the same, and so is the
answer, except that what is not registered is no longer among what is left out. -/
theorem requests_normalized (r : Registry) (root : ResourceId) (steps : List Request.Step) :
    (Request.ofSteps root steps).compile r = (Request.normalForm root steps).compile r ∧
    ((Request.normalForm root steps).strict = false →
      ((Request.normalForm root steps).registeredOnly r).compile r =
        ((Request.ofSteps root steps).compile r).map CompiledQuery.withoutUnregistered) := by
  have hsteps : Request.ofSteps root steps = ⟨root, steps.flatMap Request.Step.ids,
      (steps.filterMap Request.Step.strict?).getLast?.getD false⟩ := Request.foldl_apply { root } steps
  have hroot : (Request.ofSteps root steps).root = root := by rw [hsteps]
  have hstrict : (Request.ofSteps root steps).strict = (Request.normalForm root steps).strict := by
    rw [hsteps]
    rfl
  have hsame : (Request.ofSteps root steps).compile r = (Request.normalForm root steps).compile r :=
    Request.compile_congr_wanted hroot (Request.wanted_normalForm root steps).symm hstrict
  refine ⟨hsame, ?_⟩
  intro hlenient
  rw [hsame]
  exact Request.compile_registeredOnly hlenient

/-- the hub's request in steps, strict for a while -/
def hubSteps : List Request.Step :=
  [.add [⟨"issues"⟩, ⟨"members"⟩, ⟨"hub"⟩], .setStrict true, .add [⟨"labels"⟩, ⟨"issues"⟩, ⟨"cards"⟩, ⟨"lost"⟩],
    .setStrict false, .add [⟨"ghost"⟩, ⟨"gone"⟩]]

/-- `gone` is the parent of `lost`, and is not registered: requested or not, `lost` is out of reach -/
theorem hub_steps_normalized :
    (Request.normalForm ⟨"hub"⟩ hubSteps).ids =
        [⟨"issues"⟩, ⟨"members"⟩, ⟨"labels"⟩, ⟨"cards"⟩, ⟨"lost"⟩, ⟨"ghost"⟩, ⟨"gone"⟩] ∧
      (Request.normalForm ⟨"hub"⟩ hubSteps).strict = false ∧
      (Request.ofSteps ⟨"hub"⟩ hubSteps).compile hubRegistry = .ok { hubAnswer with
        skipped := hubAnswer.skipped ++ [⟨⟨"gone"⟩, .unregistered⟩] } ∧
      ((Request.normalForm ⟨"hub"⟩ hubSteps).registeredOnly hubRegistry).compile hubRegistry = .ok { hubAnswer with
        skipped := [⟨⟨"cards"⟩, .unreachable⟩, ⟨⟨"lost"⟩, .unreachable⟩] } := by
  have hlenient : (Request.normalForm ⟨"hub"⟩ hubSteps).strict = false := by decide
  have hcompiles : (Request.ofSteps ⟨"hub"⟩ hubSteps).compile hubRegistry = .ok { hubAnswer with
      skipped := hubAnswer.skipped ++ [⟨⟨"gone"⟩, .unregistered⟩] } := by decide +kernel
  refine ⟨by decide, hlenient, hcompiles, ?_⟩
  rw [(requests_normalized hubRegistry ⟨"hub"⟩ hubSteps).2 hlenient, hcompiles]
  rfl

end ResourceQuery
