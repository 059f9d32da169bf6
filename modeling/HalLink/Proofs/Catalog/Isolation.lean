import HalLink.Proofs.Catalog.Requests
import HalLink.Proofs.Manifest.Loading

/-!
The two sides are isolated. What a catalog answers, records and keeps for a name on one side depends
on nothing but that side: two catalogs over two sets of files that agree on it cannot be told apart,
whatever the other side holds. A text without a version depends on neither side and touches none.
-/

set_option autoImplicit false

namespace HalLink

/-- Two catalogs, with what their files hold, that agree on a side; the other side may differ. -/
structure AgreeOn (side : Side) (c c' : Catalog) (read read' : ReadBytes) : Prop where
  path : c.paths.get side = c'.paths.get side
  cell : c.cells.get side = c'.cells.get side
  file : read (c.paths.get side) = read' (c.paths.get side)

/-- The same to everyone who asks, at once and later about this side. -/
structure SameOn {α : Type} (side : Side) (x y : Answered α) : Prop where
  answer : x.answer = y.answer
  events : x.events = y.events
  cell : x.catalog.cells.get side = y.catalog.cells.get side

def Query.IsOf (text : String) (q : Query) : Prop := q = .resolve text ∨ q = .transport text

variable {text : String} {n : InterfaceName} {v : Version} {side : Side} {c c' : Catalog}
  {read read' : ReadBytes}

theorem Query.IsOf.side?_eq_none {q : Query} (hq : q.IsOf text) (h : Unversioned text) :
    q.side? = none := by
  obtain ⟨fault, hf⟩ := unversioned_iff.1 h
  rcases hq with rfl | rfl <;> simp [Query.side?, hf, Except.toOption]

namespace AgreeOn

variable (h : AgreeOn side c c' read read')

include h

theorem visible_eq : (c.visible read).get side = (c'.visible read').get side := by
  simp only [Catalog.visible, Sides.get_ofFn, ← h.cell, ← h.path, Manifest.load_congr h.file]

theorem loadEvents_eq : c.loadEvents read side = c'.loadEvents read' side := by
  simp only [Catalog.loadEvents, loadSide, ← h.cell, ← h.path, Manifest.load_congr h.file]

theorem sameOn_resolve (ha : Asks text n v side) :
    SameOn side (c.resolve read text) (c'.resolve read' text) := by
  rw [c.resolve_of_asks read ha, c'.resolve_of_asks read' ha]
  refine ⟨by rw [h.visible_eq], h.loadEvents_eq, ?_⟩
  rw [Catalog.cells_consulted_self, Catalog.cells_consulted_self, h.visible_eq]

end AgreeOn

theorem SameOn.transport (h : SameOn side (c.resolve read text) (c'.resolve read' text)) :
    SameOn side (c.transport read text) (c'.transport read' text) := by
  rw [c.transport_eq, c'.transport_eq]
  exact ⟨by rw [h.answer], by rw [h.events, h.answer], h.cell⟩

theorem cells_resolve_of_ne (ha : Asks text n v side) (c : Catalog) (read : ReadBytes)
    {other : Side} (hne : other ≠ side) :
    (c.resolve read text).catalog.cells.get other = c.cells.get other := by
  rw [c.resolve_of_asks read ha]
  exact Catalog.cells_consulted_of_ne c read fun he => hne (Option.some.inj he).symm

theorem afterQueries_eq_self {history : List (ReadBytes × Query)}
    (h : ∀ earlier ∈ history, ∃ text, Unversioned text ∧ earlier.2.IsOf text) :
    c.afterQueries history = c := by
  induction history with
  | nil => rfl
  | cons earlier rest ih =>
    obtain ⟨⟨text, hu, hq⟩, hrest⟩ := List.forall_mem_cons.1 h
    have hself : (c.ask earlier.1 earlier.2).catalog = c := by
      rw [Catalog.ask_eq, hq.side?_eq_none hu]
      rfl
    have hafter := ih hrest
    simp only [Catalog.afterQueries, List.foldl_cons] at hafter ⊢
    rw [hself, hafter]

/-- Main result: a name on a side sees that side alone, in what it is answered, in the log and in
what is kept; a text without a version sees neither, so whatever files come after it are found by
the next name. -/
theorem sides_isolated (text : String) :
    (∀ (n : InterfaceName) (v : Version) (side : Side), Asks text n v side →
      (∀ (c c' : Catalog) (read read' : ReadBytes), AgreeOn side c c' read read' →
        SameOn side (c.resolve read text) (c'.resolve read' text) ∧
        SameOn side (c.transport read text) (c'.transport read' text)) ∧
      ∀ (c : Catalog) (read : ReadBytes) (other : Side), other ≠ side →
        (c.resolve read text).catalog.cells.get other = c.cells.get other ∧
        (c.transport read text).catalog.cells.get other = c.cells.get other) ∧
    (Unversioned text → ∀ (c c' : Catalog) (read read' : ReadBytes),
      (c.resolve read text).catalog = c ∧ (c.transport read text).catalog = c ∧
      (c.resolve read text).answer = (c'.resolve read' text).answer ∧
      (c.resolve read text).events = (c'.resolve read' text).events ∧
      (c.transport read text).answer = (c'.transport read' text).answer ∧
      (c.transport read text).events = (c'.transport read' text).events) ∧
    ∀ (n : InterfaceName) (v : Version) (side : Side), Asks text n v side →
      ∀ (c : Catalog) (history : List (ReadBytes × Query)) (read : ReadBytes),
        (∀ earlier ∈ history, ∃ text, Unversioned text ∧ earlier.2.IsOf text) →
        c.cells.get side = .unread →
        ((c.afterQueries history).resolve read text).answer =
            settle n (Manifest.load read (c.paths.get side)).toOption ∧
        ((c.afterQueries history).transport read text).answer =
            resolvedTransport (settle n (Manifest.load read (c.paths.get side)).toOption) := by
  refine ⟨fun n v side ha => ⟨fun c c' read read' h => ?_, fun c read other hne => ?_⟩,
    fun hu c c' read read' => ?_, fun n v side ha c history read hhistory hunread => ?_⟩
  · have hresolve := h.sameOn_resolve ha
    exact ⟨hresolve, hresolve.transport⟩
  · have hresolve := cells_resolve_of_ne ha c read hne
    exact ⟨hresolve, hresolve⟩
  · obtain ⟨fault, hf, hr⟩ := c.resolve_of_unversioned read hu
    obtain ⟨fault', hf', hr'⟩ := c'.resolve_of_unversioned read' hu
    obtain rfl := Except.error.inj (hf.symm.trans hf')
    simp [Catalog.transport_eq, hr, hr']
  · rw [afterQueries_eq_self hhistory, c.transport_eq, c.resolve_of_asks read ha,
      Catalog.visible_unread hunread]
    exact ⟨rfl, rfl⟩

/-- A device that declares a package of the framework is not heard, and a framework manifest that
comes after a name without a version is. -/
theorem sides_isolated_manager :
    let text := "android.hidl.manager@1.0::IServiceManager"
    let file := "[[hal]]\nname = \"android.hidl.manager\"\ntransport = \"hwbinder\"\n" ++
      "versions = [\"1.0\"]\n"
    let c := Catalog.ofPaths ⟨"f", "d"⟩
    let c' : Catalog :=
      ⟨⟨"f", "e"⟩, ⟨.unread, .settled (some ⟨[⟨"android.hidl.manager", .hwbinder, [⟨1, 0⟩]⟩]⟩)⟩⟩
    let nothing : ReadBytes := fun _ => .error .notFound
    let device : ReadBytes := fun path =>
      if path = "f" then .error .notFound else .ok (Utf8.encode file)
    let framework : ReadBytes := fun _ => .ok (Utf8.encode file)
    let history := [(nothing, Query.transport "android.hidl.manager::IServiceManager")]
    Asks text ⟨"android.hidl.manager", some ⟨1, 0⟩, "IServiceManager"⟩ ⟨1, 0⟩ .framework ∧
    AgreeOn .framework c c' nothing device ∧
    SameOn .framework (c.transport nothing text) (c'.transport device text) ∧
    (c'.transport device text).answer = .empty ∧
    ((c.afterQueries history).transport framework text).answer = .hwbinder := by
  intro text file c c' nothing device framework history
  have ha : Asks text ⟨"android.hidl.manager", some ⟨1, 0⟩, "IServiceManager"⟩ ⟨1, 0⟩
      .framework := asks_iff.2 ⟨by decide +kernel, rfl, by decide +kernel⟩
  have hagree : AgreeOn .framework c c' nothing device := ⟨rfl, rfl, rfl⟩
  have hhistory : ∀ earlier ∈ history, ∃ text, Unversioned text ∧ earlier.2.IsOf text := by
    intro earlier he
    obtain rfl := List.mem_singleton.1 he
    have hu : Unversioned "android.hidl.manager::IServiceManager" :=
      unversioned_iff.2 ⟨.missingVersion "android.hidl.manager::IServiceManager",
        by decide +kernel⟩
    exact ⟨_, hu, .inr rfl⟩
  have h := sides_isolated text
  refine ⟨ha, hagree, ((h.1 _ _ _ ha).1 c c' nothing device hagree).2, by decide +kernel, ?_⟩
  rw [(h.2.2 _ _ _ ha c history framework hhistory rfl).2]
  decide +kernel

end HalLink
