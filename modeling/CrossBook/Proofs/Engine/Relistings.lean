import CrossBook.Proofs.Engine.Mirrors
import CrossBook.Proofs.Engine.Pairs

/-!
# Pairs that are listed in another order

What is found out about a pair depends neither on when it is asked for nor on what was asked before.
So the same pairs are listed in whatever order they are given, and the sessions mirror each other.

## Main definitions

* `Engine.Listing.Steady` — an inquiry that always comes to the same

## Main results

* `Engine.Listing.steady_find` — the listing of a pair is always the same
* `Engine.Session.list_of_perm` — the pairs of some settings are listed in any order
* `Engine.Session.accounts_of_perm` — sessions tell the same whatever the order of their pairs
-/

namespace CrossBook.Engine

variable {σ τ α β : Type} {net : Network σ} {view : σ → τ}

/-! ### Calls that nothing else goes on beside -/

namespace Network.Impartial

variable (impartial : net.Impartial view)

include impartial

theorem view_awaitAlone {c : Call} (looks : Nat) (slot : Slot c) (s : Scene σ) :
    view (net.awaitAlone c looks slot s).1.world = view s.world := by
  induction looks generalizing slot s with
  | zero => cases slot <;> rfl
  | succ looks ih =>
    cases slot with
    | answered r => rfl
    | waiting wait later deadline =>
      rw [awaitAlone]
      dsimp only
      rw [ih, impartial.view_look]

/-- Calls that are waited for alone come to the same but for references, whenever they are made. -/
theorem alike_awaitAlone {c : Call} {lead : Nat} (looks : Nat) {slot slot₀ : Slot c}
    {s s₀ : Scene σ} (step : s.InStep view lead s₀) (alike : slot.Alike lead c slot₀) :
    c.ResultsAlike (net.awaitAlone c looks slot s).2 (net.awaitAlone c looks slot₀ s₀).2 := by
  induction looks generalizing slot slot₀ s s₀ with
  | zero =>
    cases alike with
    | answered alike => exact alike
    | waiting waits due => exact c.resultsAlike_refl _
  | succ looks ih =>
    cases alike with
    | answered alike => exact alike
    | @waiting wait wait₀ deadline deadline₀ later waits due =>
      have step : ({ s with now := max s.now (min wait.time deadline.time), dropped := 0 } :
          Scene σ).InStep view lead
            { s₀ with now := max s₀.now (min wait₀.time deadline₀.time), dropped := 0 } := by
        refine ⟨step.world, ?_⟩
        have now := step.now
        dsimp only
        omega
      rw [awaitAlone, awaitAlone]
      dsimp only
      refine ih ?_ (step.look impartial (.waiting waits due))
      refine step.of_clock ?_ ?_ ?_ ?_
      all_goals first | exact impartial.view_look _ _ | exact net.clock_look _ _

theorem view_callAlone (c : Call) (s : Scene σ) :
    view (net.callAlone c s).1.world = view s.world :=
  (impartial.view_awaitAlone _ _ _).trans (impartial.view_begin c s)

theorem alike_callAlone (c : Call) {s s' : Scene σ} (same : view s.world = view s'.world) :
    c.ResultsAlike (net.callAlone c s).2 (net.callAlone c s').2 := by
  -- both are compared with a call at the beginning of time
  have first (s : Scene σ) (same : view s.world = view s'.world) :
      c.ResultsAlike (net.callAlone c s).2 (net.callAlone c (.first s'.stores s'.world)).2 := by
    have step : s.InStep view s.now (.first s'.stores s'.world) := ⟨same, (Nat.zero_add _).symm⟩
    have begun : (net.begin c s).1.InStep view s.now (net.begin c (.first s'.stores s'.world)).1 :=
      step.of_clock (impartial.view_begin c _) (net.clock_begin c _) (impartial.view_begin c _)
        (net.clock_begin c _)
    rw [callAlone, callAlone]
    dsimp only
    rw [impartial.waits begun.world]
    exact impartial.alike_awaitAlone _ begun (step.begin impartial c)
  exact (first s same).trans (first s' rfl).symm

end Network.Impartial

theorem Network.stores_awaitAlone {c : Call} (looks : Nat) (slot : Slot c) (s : Scene σ) :
    (net.awaitAlone c looks slot s).1.stores = s.stores := by
  induction looks generalizing slot s with
  | zero => cases slot <;> rfl
  | succ looks ih =>
    cases slot with
    | answered r => rfl
    | waiting wait later deadline =>
      rw [awaitAlone]
      dsimp only
      rw [ih, net.stores_look]

/-! ### Inquiries -/

namespace Listing

/-- An inquiry comes to the same in all scenes whose worlds look the same. It changes neither how
they look nor what running programs share. -/
structure Steady (view : σ → τ) (x : Inquiry σ α) : Prop where
  same : ∀ {s s' : Scene σ}, view s.world = view s'.world → (x s).1 = (x s').1
  view_eq : ∀ s, view (x s).2.world = view s.world
  stores_eq : ∀ s, (x s).2.stores = s.stores

variable {x : Inquiry σ α}

theorem steady_pure (a : α) : Steady view (pure a : Inquiry σ α) :=
  ⟨fun _ => rfl, fun _ => rfl, fun _ => rfl⟩

theorem steady_lift (r : Except Failure α) : Steady view (liftM r : Inquiry σ α) :=
  ⟨fun _ => rfl, fun _ => rfl, fun _ => rfl⟩

theorem Steady.bind {f : α → Inquiry σ β} (h : Steady view x) (next : ∀ a, Steady view (f a)) :
    Steady view (x >>= f) where
  same {s s'} look := by
    have first := h.same look
    have look : view (x s).2.world = view (x s').2.world := by rw [h.view_eq, h.view_eq, look]
    rw [inquiry_bind, inquiry_bind]
    generalize x s = r at first look ⊢
    generalize x s' = r' at first look ⊢
    obtain ⟨e | a, s₁⟩ := r <;> obtain ⟨e' | a', s₁'⟩ := r' <;> cases first
    · rfl
    · exact (next a).same look
  view_eq s := by
    have first := h.view_eq s
    rw [inquiry_bind]
    generalize x s = r at first ⊢
    obtain ⟨e | a, s₁⟩ := r
    · exact first
    · exact ((next a).view_eq s₁).trans first
  stores_eq s := by
    have first := h.stores_eq s
    rw [inquiry_bind]
    generalize x s = r at first ⊢
    obtain ⟨e | a, s₁⟩ := r
    · exact first
    · exact ((next a).stores_eq s₁).trans first

section Finding

variable (impartial : net.Impartial view)

include impartial

/-- An inquiry for something that has no reference in it always comes to the same. -/
theorem steady_inquire {c : Call} (plain : ∀ a a' : c.Reply, c.RepliesAlike a a' → a = a') :
    Steady view (inquire net c) where
  same {s s'} look := by
    have alike := impartial.alike_callAlone c look
    rw [inquire, inquire]
    generalize net.callAlone c s = r at alike ⊢
    generalize net.callAlone c s' = r' at alike ⊢
    obtain ⟨s₁, r⟩ := r
    obtain ⟨s₁', r'⟩ := r'
    cases alike with
    | error e => rfl
    | ok alike => exact congrArg Except.ok (plain _ _ alike)
  view_eq s := by
    have same := impartial.view_callAlone c s
    rw [inquire]
    generalize net.callAlone c s = r at same ⊢
    obtain ⟨s₁, e | a⟩ := r <;> exact same
  stores_eq s := by
    have same : (net.callAlone c s).1.stores = s.stores :=
      (net.stores_awaitAlone _ _ _).trans (net.stores_begin c s)
    rw [inquire]
    generalize net.callAlone c s = r at same ⊢
    obtain ⟨s₁, e | a⟩ := r <;> exact same

theorem steady_decimalsOf (a : Asset) : Steady view (decimalsOf net a) := by
  rw [decimalsOf]
  cases a.decimals with
  | none => exact steady_inquire impartial fun _ _ => id
  | some d => exact steady_pure d

/-- The listing of a pair is always the same. -/
theorem steady_find (p : Pair) : Steady view (find net p) := by
  refine (steady_decimalsOf impartial p.base).bind fun baseDecimals => ?_
  refine (steady_decimalsOf impartial p.quote).bind fun quoteDecimals => ?_
  refine (steady_inquire impartial fun _ _ => id).bind fun address => ?_
  refine (steady_inquire impartial fun _ _ => id).bind fun minimums => ?_
  refine (steady_lift _).bind fun minBase => ?_
  refine (steady_lift _).bind fun minQuote => ?_
  exact steady_pure _

end Finding

end Listing

/-! ### Lists of results in another order -/

theorem mapM_cons_eq_ok {ε : Type} {f : α → Except ε β} {x : α} {xs : List α} {ys : List β} :
    (x :: xs).mapM f = .ok ys ↔ ∃ y rest, f x = .ok y ∧ xs.mapM f = .ok rest ∧ ys = y :: rest := by
  rw [List.mapM_cons, bind_eq_ok]
  constructor
  · rintro ⟨y, first, h⟩
    obtain ⟨rest, others, h⟩ := bind_eq_ok.mp h
    exact ⟨y, rest, first, others, (Except.ok.inj h).symm⟩
  · rintro ⟨y, rest, first, others, rfl⟩
    exact ⟨y, first, bind_eq_ok.mpr ⟨rest, others, rfl⟩⟩

/-- What results from each element results from it in any order. -/
theorem mapM_of_perm {ε : Type} {f : α → Except ε β} {xs xs' : List α} {ys : List β}
    (h : xs.Perm xs') (all : xs.mapM f = .ok ys) : ∃ ys', xs'.mapM f = .ok ys' ∧ ys.Perm ys' := by
  induction h generalizing ys with
  | nil => exact ⟨ys, all, .refl ys⟩
  | cons x _ ih =>
    obtain ⟨y, rest, first, others, rfl⟩ := mapM_cons_eq_ok.mp all
    obtain ⟨rest', others, perm⟩ := ih others
    exact ⟨y :: rest', mapM_cons_eq_ok.mpr ⟨y, rest', first, others, rfl⟩, perm.cons y⟩
  | swap x x' xs =>
    obtain ⟨y', _, first', others', rfl⟩ := mapM_cons_eq_ok.mp all
    obtain ⟨y, rest, first, others, rfl⟩ := mapM_cons_eq_ok.mp others'
    have moved := mapM_cons_eq_ok.mpr ⟨y', rest, first', others, rfl⟩
    exact ⟨y :: y' :: rest, mapM_cons_eq_ok.mpr ⟨y, _, first, moved, rfl⟩, .swap y y' rest⟩
  | trans _ _ ih ih' =>
    obtain ⟨ys', all, perm⟩ := ih all
    obtain ⟨ys'', all, perm'⟩ := ih' all
    exact ⟨ys'', all, perm.trans perm'⟩

/-- The members of two lists of which one has the values of the other in another order are matched
by their values. -/
theorem exists_matching {γ : Type} {f : α → γ} {g : β → γ} {xs : List α} {ys : List β}
    (h : (xs.map f).Perm (ys.map g)) : ∃ matching : List (α × β),
      matching.map (·.1) = xs ∧ (matching.map (·.2)).Perm ys ∧ ∀ m ∈ matching, f m.1 = g m.2 := by
  induction xs generalizing ys with
  | nil =>
    obtain rfl : ys = [] := List.map_eq_nil_iff.mp h.nil_eq.symm
    exact ⟨[], rfl, .nil, by simp⟩
  | cons x xs ih =>
    obtain ⟨y, among, same⟩ := List.mem_map.mp (h.subset List.mem_cons_self)
    obtain ⟨before, after, rfl⟩ := List.append_of_mem among
    have others : (xs.map f).Perm ((before ++ after).map g) := by
      have moved := h.trans ((List.perm_middle (a := y)).map g)
      rw [List.map_cons, List.map_cons, same] at moved
      exact moved.cons_inv
    obtain ⟨matching, left, right, values⟩ := ih others
    refine ⟨(x, y) :: matching, by rw [List.map_cons, left], ?_, ?_⟩
    · exact (right.cons y).trans List.perm_middle.symm
    · exact List.forall_mem_cons.mpr ⟨same.symm, values⟩

namespace Session

/-! ### Listings -/

variable {s s₀ : Session σ} {settings : Settings} {pairs : List PairSymbols}

theorem steady_findAll (impartial : net.Impartial view) (pairs : List Pair) :
    Listing.Steady view (findAll net pairs) := by
  induction pairs with
  | nil => exact Listing.steady_pure []
  | cons p pairs ih =>
    exact (Listing.steady_find impartial p).bind fun l => ih.bind fun rest =>
      Listing.steady_pure (l :: rest)

/-- Pairs that are listed one after the other have the listings they have in the beginning. -/
theorem findAll_eq_mapM (impartial : net.Impartial view) (pairs : List Pair) (scene : Scene σ) :
    (findAll net pairs scene).1 = pairs.mapM fun p => (Listing.find net p scene).1 := by
  induction pairs with
  | nil => rfl
  | cons p pairs ih =>
    have first := (Listing.steady_find impartial p).view_eq scene
    rw [findAll, Listing.inquiry_bind, List.mapM_cons]
    generalize found : Listing.find net p scene = r at first ⊢
    obtain ⟨e | l, scene₁⟩ := r
    · rfl
    · have others := (steady_findAll impartial pairs).same first
      dsimp only
      rw [Listing.inquiry_bind]
      rw [ih] at others
      generalize findAll net pairs scene₁ = r' at others ⊢
      obtain ⟨r', scene₂⟩ := r'
      obtain rfl := others
      generalize (pairs.mapM fun p => (Listing.find net p scene).1) = r''
      cases r'' <;> rfl

theorem pairs_of_perm {found : List Pair} (h : settings.pairSymbols.Perm pairs)
    (known : settings.pairs = .ok found) :
    ∃ found', ({ settings with pairSymbols := pairs } : Settings).pairs = .ok found' ∧
      found.Perm found' := by
  obtain ⟨t, table, all⟩ := bind_eq_ok.mp known
  obtain ⟨found', all', perm⟩ := mapM_of_perm h all
  exact ⟨found', bind_eq_ok.mpr ⟨t, table, all'⟩, perm⟩

/-- Pairs are found in any order, and finding them makes the same of the scene. -/
theorem findAll_of_perm {found found' : List Pair} {listings : List Listing}
    {scene scene₁ : Scene σ} (impartial : net.Impartial view) (order : found.Perm found')
    (all : findAll net found scene = (.ok listings, scene₁)) :
    ∃ listings' scene₁', findAll net found' scene = (.ok listings', scene₁') ∧
      listings.Perm listings' ∧ scene₁'.stores = scene₁.stores ∧
      view scene₁'.world = view scene₁.world := by
  have told := findAll_eq_mapM impartial found scene
  have stores := (steady_findAll impartial found).stores_eq scene
  have world := (steady_findAll impartial found).view_eq scene
  rw [all] at told stores world
  obtain ⟨listings', told', order'⟩ := mapM_of_perm order told.symm
  have all' := (findAll_eq_mapM impartial found' scene).trans told'
  have stores' := (steady_findAll impartial found').stores_eq scene
  have world' := (steady_findAll impartial found').view_eq scene
  exact ⟨listings', (findAll net found' scene).2, Prod.ext all' rfl, order',
    stores'.trans stores.symm, world'.trans world.symm⟩

/-- The same listings in another order make traders of the same pairs. -/
theorem exists_relisted (settings : Settings) (pairs : List PairSymbols)
    {listings listings' : List Listing} (order : listings.Perm listings') :
    ∃ jobs : List (Trader × Trader),
      jobs.map (·.1) = tradersOf { settings with pairSymbols := pairs } listings' ∧
      (jobs.map (·.2)).Perm (tradersOf settings listings) ∧
      ∀ m ∈ jobs, m.1 = m.2.relisted m.1.ledger pairs := by
  have matched : ((tradersOf { settings with pairSymbols := pairs } listings').map
      Trader.listing).Perm ((tradersOf settings listings).map Trader.listing) := by
    rw [listings_tradersOf, listings_tradersOf]
    exact order.symm
  obtain ⟨jobs, left, right, same⟩ := exists_matching matched
  refine ⟨jobs, left, right, fun m job => ?_⟩
  have given := settings_tradersOf (left ▸ List.mem_map_of_mem job)
  have given₀ := settings_tradersOf (right.subset (List.mem_map_of_mem job))
  rw [Trader.relisted, given₀, ← same m job, ← given]

/-- The pairs of some settings are listed in any order, and the sessions mirror each other. -/
theorem list_of_perm (impartial : s.network.Impartial view)
    (listed : s.list settings = (s₀, .ok ())) (apart : settings.NamesApart)
    (single : ∀ t ∈ s₀.traders, ∀ t' ∈ s₀.traders,
      t.listing.address.pool = t'.listing.address.pool → t.listing.address = t'.listing.address)
    (perm : settings.pairSymbols.Perm pairs) :
    ∃ s₁ jobs, s.list { settings with pairSymbols := pairs } = (s₁, .ok ()) ∧
      s₁.Mirrors view jobs s₀ := by
  have names : (s₀.traders.map Trader.name).Nodup := by
    have names := (Settings.namesApart_iff (pairs_of_list listed).1).mp apart
    rw [List.pairwise_map] at names
    exact List.pairwise_map.mpr names
  obtain ⟨found, listings, scene, known, all, rfl⟩ := list_eq_ok_iff.mp listed
  have impartial : ({ s.network with limitSecs := settings.trade.callTimeoutSecs } :
      Network σ).Impartial view := ⟨impartial.waits, impartial.answer, impartial.view_eq⟩
  obtain ⟨found', known', order⟩ := pairs_of_perm perm known
  obtain ⟨listings', scene', all', order', stores, world⟩ := findAll_of_perm impartial order all
  obtain ⟨jobs, left, right, relisted⟩ :=
    exists_relisted settings pairs order'
  have shelf : scene'.stores.shelf = scene.stores.shelf := congrArg Stores.shelf stores
  have different := different_tradersOf { settings with pairSymbols := pairs } listings'
  rw [← left, List.pairwise_map] at different
  refine ⟨_, jobs, list_eq_ok_iff.mpr ⟨found', listings', scene', known', all', rfl⟩, ?_⟩
  exact {
    impartial := impartial
    idle := ⟨rfl, rfl⟩
    idle₀ := ⟨rfl, rfl⟩
    network := rfl
    traders := left.symm
    known := right
    relisted := fun m job => ⟨m.1.ledger, pairs, relisted m job⟩
    ledgers := List.pairwise_map.mpr different
    ledgers₀ := List.pairwise_map.mpr (different_tradersOf settings listings)
    names := names
    single := single
    world := world
    shelf := shelf
    books := fun _ => rfl
    rests := fun _ _ => rfl
    claims := fun _ _ => rfl }

/-- The pairs of some settings are given in another order. The display names are different, and
pairs that share a pool share its address. Then the pairs are listed as well, and the session tells
the same of whatever is done with it but for the numbers of references, as long as no block of the
first session unwinds. -/
theorem accounts_of_perm (impartial : s.network.Impartial view)
    (listed : s.list settings = (s₀, .ok ())) (apart : settings.NamesApart)
    (single : ∀ t ∈ s₀.traders, ∀ t' ∈ s₀.traders,
      t.listing.address.pool = t'.listing.address.pool → t.listing.address = t'.listing.address)
    (perm : settings.pairSymbols.Perm pairs) {acts : List (Act σ)}
    (blind : ∀ a ∈ acts, a.Blind view) (returns : ∀ a ∈ (s₀.performAll acts).2, a.Returns) :
    ∃ s₁, s.list { settings with pairSymbols := pairs } = (s₁, .ok ()) ∧
      (s₁.performAll acts).2.map Account.unnumbered =
        (s₀.performAll acts).2.map Account.unnumbered := by
  obtain ⟨s₁, jobs, listed', mirrors⟩ := list_of_perm impartial listed apart single perm
  exact ⟨s₁, listed', mirrors.performAll acts blind returns⟩

end Session

end CrossBook.Engine
