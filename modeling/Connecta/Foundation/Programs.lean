import Mathlib

/-!
# Programs that share a world

A program asks the world for one operation at a time.  The operation is served
when its turn comes.  The program may stop waiting for it first, and then the
operation is still out and may be served at any later time, or never.

A discipline says which changes of the world are lawful and which names an
operation spends.  A name is minted once and held by one program, or by the one
operation it left out, so what its holder knows of it survives every step of the
others.  A program is safe when each operation it asks is lawful whenever it is
served, and `reachable_sound` carries that to every interleaving.
-/

namespace Connecta.Programs

/-- A computation that ended, or that asks for one operation and continues with
the answer or without it. -/
inductive Program (Op : Type) (Answer : Op → Type) (Loss Result : Type) where
  | done (result : Result)
  | ask (op : Op) (next : Except Loss (Answer op) → Program Op Answer Loss Result)

namespace Program

variable {Op : Type} {Answer : Op → Type} {Loss First Second : Type}

def bind : Program Op Answer Loss First →
    (First → Program Op Answer Loss Second) → Program Op Answer Loss Second
  | done result, continuation => continuation result
  | ask op next, continuation => ask op fun reply => (next reply).bind continuation

instance : Monad (Program Op Answer Loss) where
  pure := done
  bind := bind

/-- A program can end so, under some answers. -/
inductive Returns {Result : Type} :
    Program Op Answer Loss Result → Result → Prop where
  | done (result : Result) : Returns (.done result) result
  | ask (op : Op) (next : Except Loss (Answer op) →
      Program Op Answer Loss Result) (reply : Except Loss (Answer op))
      (result : Result) :
      Returns (next reply) result → Returns (.ask op next) result

theorem bind_assoc {Third : Type} (program : Program Op Answer Loss First)
    (middle : First → Program Op Answer Loss Second)
    (last : Second → Program Op Answer Loss Third) :
    (program >>= middle) >>= last =
      program >>= fun result => middle result >>= last := by
  induction program with
  | done result => rfl
  | ask op next ih =>
      change ask op _ = ask op _
      congr 1
      funext reply
      exact ih reply

end Program

open Program

/-- How operations change a world, which worlds are valid and which changes
lawful, and the names an operation spends when it is served. -/
structure Discipline (World Name Op : Type) (Answer : Op → Type) where
  serve : (op : Op) → World → Answer op → World → Prop
  /-- What happens by itself. -/
  turn : World → World → Prop
  valid : World → Prop
  lawful : World → World → Prop
  names : Op → Set Name
  minted : World → Set Name
  spent : World → Set Name

namespace Discipline

variable {World Name Op : Type} {Answer : Op → Type}
variable (discipline : Discipline World Name Op Answer)

/-- A lawful change that spends only some names. -/
structure Spends (names : Set Name) (before after : World) : Prop where
  lawful : discipline.lawful before after
  valid : discipline.valid after
  minted : discipline.minted before ⊆ discipline.minted after
  spent : discipline.spent after ⊆ discipline.spent before ∪ names

/-- A change made by others than the holder of some names. -/
def Others (held : Set Name) (before after : World) : Prop :=
  ∃ names, Disjoint names held ∧ discipline.Spends names before after

/-- What may have happened while the holder of some names waited. -/
abbrev Rely (held : Set Name) : World → World → Prop :=
  Relation.ReflTransGen (discipline.Others held)

/-- Names minted and not yet spent, in a valid world. -/
structure Held (held : Set Name) (world : World) : Prop where
  valid : discipline.valid world
  minted : held ⊆ discipline.minted world
  unspent : Disjoint held (discipline.spent world)

/-- An operation that is lawful whenever it is served from now on. -/
def Lands (op : Op) (world : World) : Prop :=
  ∀ now, discipline.Rely (discipline.names op) world now →
    discipline.Held (discipline.names op) now →
      ∀ answer later, discipline.serve op now answer later →
        discipline.Spends (discipline.names op) now later

/-- What a program holds once an operation was served. -/
def kept (held : Set Name) (before after : World) : Set Name :=
  (held ∪ (discipline.minted after \ discipline.minted before)) \
    discipline.spent after

variable {discipline}

theorem Others.mono {held fewer : Set Name} (hfewer : fewer ⊆ held)
    {before after : World} (hothers : discipline.Others held before after) :
    discipline.Others fewer before after := by
  obtain ⟨names, hdisjoint, hspends⟩ := hothers
  exact ⟨names, hdisjoint.mono_right hfewer, hspends⟩

theorem Rely.mono {held fewer : Set Name} (hfewer : fewer ⊆ held)
    {before after : World} (hrely : discipline.Rely held before after) :
    discipline.Rely fewer before after := by
  induction hrely with
  | refl => exact .refl
  | tail _ hothers ih => exact ih.tail (hothers.mono hfewer)

theorem Held.mono {held fewer : Set Name} {world : World}
    (hheld : discipline.Held held world) (hfewer : fewer ⊆ held) :
    discipline.Held fewer world :=
  ⟨hheld.valid, hfewer.trans hheld.minted, hheld.unspent.mono_left hfewer⟩

theorem Held.others {held : Set Name} {before after : World}
    (hheld : discipline.Held held before)
    (hothers : discipline.Others held before after) :
    discipline.Held held after := by
  obtain ⟨names, hdisjoint, hspends⟩ := hothers
  refine ⟨hspends.valid, hheld.minted.trans hspends.minted, ?_⟩
  exact (Set.disjoint_union_right.mpr ⟨hheld.unspent, hdisjoint.symm⟩).mono_right
    hspends.spent

theorem Held.kept {held names : Set Name} {before after : World}
    (hheld : discipline.Held held before)
    (hspends : discipline.Spends names before after) :
    discipline.Held (discipline.kept held before after) after where
  valid := hspends.valid
  minted := by
    rintro name ⟨hname | hname, -⟩
    · exact hspends.minted (hheld.minted hname)
    · exact hname.1
  unspent := Set.disjoint_sdiff_left

/-- A change that mints and spends nothing leaves a program what it holds. -/
theorem Held.kept_same {held : Set Name} {before after : World}
    (hheld : discipline.Held held before)
    (hminted : discipline.minted after = discipline.minted before)
    (hspent : discipline.spent after = discipline.spent before) :
    discipline.kept held before after = held := by
  rw [Discipline.kept, hminted, hspent, Set.sdiff_self, Set.union_empty]
  exact hheld.unspent.sdiff_eq_left

theorem Held.kept_self {held : Set Name} {world : World}
    (hheld : discipline.Held held world) :
    discipline.kept held world world = held :=
  hheld.kept_same rfl rfl

/-- Names held apart are kept apart. -/
theorem kept_union {held names frame : Set Name} {before after : World}
    (hspends : discipline.Spends names before after)
    (hheld : discipline.Held frame before) (hapart : Disjoint names frame) :
    discipline.kept (held ∪ frame) before after =
        discipline.kept held before after ∪ frame ∧
      Disjoint (discipline.kept held before after)
        (frame \ held) := by
  have hframe := hheld.others ⟨names, hapart, hspends⟩
  constructor
  · rw [Discipline.kept, Discipline.kept, Set.union_right_comm,
      Set.union_sdiff_distrib, hframe.unspent.sdiff_eq_left]
  · rw [Set.disjoint_left]
    rintro name ⟨hname | hname, -⟩ hother
    · exact hother.2 hname
    · exact hname.2 (hheld.minted hother.1)

theorem Lands.rely {op : Op} {before after : World}
    (hlands : discipline.Lands op before)
    (hrely : discipline.Rely (discipline.names op) before after) :
    discipline.Lands op after :=
  fun now hlater => hlands now (hrely.trans hlater)

end Discipline

open Discipline

variable {World Name Op Loss : Type} {Answer : Op → Type}
variable (discipline : Discipline World Name Op Answer)

/-- Every operation the program asks is lawful whenever it is served, and the
result it ends with keeps a promise. -/
def Safe {Result : Type} (promise : Result → Set Name → World → Prop) :
    Program Op Answer Loss Result → Set Name → World → Prop
  | done result, held, world => ∀ now, discipline.Rely held world now →
      discipline.Held held now → promise result held now
  | ask op next, held, world => discipline.names op ⊆ held ∧
      discipline.Lands op world ∧
      ∀ now, discipline.Rely held world now → discipline.Held held now →
        (∀ answer later, discipline.serve op now answer later →
          Safe promise (next (.ok answer)) (discipline.kept held now later)
            later) ∧
        ∀ loss, Safe promise (next (.error loss))
          (held \ discipline.names op) now

section Rules

variable {discipline} {Result First Second : Type}
variable {promise : Result → Set Name → World → Prop}
variable {held : Set Name} {world now : World}

/-- What a program knows survives the others' steps. -/
theorem Safe.rely {program : Program Op Answer Loss Result}
    (hsafe : Safe discipline promise program held world)
    (hrely : discipline.Rely held world now) :
    Safe discipline promise program held now := by
  cases program with
  | done result => exact fun later hlater => hsafe later (hrely.trans hlater)
  | ask op next =>
      obtain ⟨hnames, hlands, hnext⟩ := hsafe
      refine ⟨hnames, hlands.rely (hrely.mono hnames), ?_⟩
      exact fun later hlater => hnext later (hrely.trans hlater)

/-- A program that ends, with a promise the others' steps keep. -/
theorem Safe.ended {program : Program Op Answer Loss Result} {result : Result}
    (hprogram : program = .done result)
    (hpromise : ∀ now, discipline.Rely held world now →
      discipline.Held held now → promise result held now) :
    Safe discipline promise program held world := by
  rw [hprogram]
  exact hpromise

/-- An operation that spends no name. -/
theorem Safe.asked {op : Op}
    {next : Except Loss (Answer op) → Program Op Answer Loss Result}
    (hnames : discipline.names op = ∅)
    (hserve : ∀ now, discipline.Rely ∅ world now → discipline.valid now →
      ∀ answer later, discipline.serve op now answer later →
        discipline.Spends ∅ now later)
    (hnext : ∀ now, discipline.Rely held world now → discipline.Held held now →
      (∀ answer later, discipline.serve op now answer later →
        Safe discipline promise (next (.ok answer))
          (discipline.kept held now later) later) ∧
      ∀ loss, Safe discipline promise (next (.error loss)) held now) :
    Safe discipline promise (ask op next) held world := by
  refine ⟨?_, ?_, ?_⟩
  · rw [hnames]
    exact Set.empty_subset held
  · rw [Discipline.Lands, hnames]
    exact fun now hrely hheld => hserve now hrely hheld.valid
  · rw [hnames, Set.sdiff_empty]
    exact hnext

/-- A weaker promise. -/
theorem Safe.weaken {weaker : Result → Set Name → World → Prop}
    {program : Program Op Answer Loss Result}
    (hsafe : Safe discipline promise program held world)
    (hweaker : ∀ result held world, discipline.Held held world →
      promise result held world → weaker result held world) :
    Safe discipline weaker program held world := by
  induction program generalizing held world with
  | done result =>
      exact fun now hrely hheld =>
        hweaker result held now hheld (hsafe now hrely hheld)
  | ask op next ih =>
      obtain ⟨hnames, hlands, hnext⟩ := hsafe
      refine ⟨hnames, hlands, fun now hrely hheld => ?_⟩
      obtain ⟨hanswered, hlost⟩ := hnext now hrely hheld
      exact ⟨fun answer later hserved => ih _ (hanswered answer later hserved),
        fun loss => ih _ (hlost loss)⟩

/-- The result of a program, wrapped. -/
theorem Safe.map {promise : Second → Set Name → World → Prop}
    {wrap : First → Second} {program : Program Op Answer Loss First}
    (hsafe : Safe discipline (fun result => promise (wrap result)) program held
      world) :
    Safe discipline promise (program >>= fun result => .done (wrap result)) held
      world := by
  induction program generalizing held world with
  | done result => exact hsafe
  | ask op next ih =>
      obtain ⟨hnames, hlands, hnext⟩ := hsafe
      refine ⟨hnames, hlands, fun now hrely hheld => ?_⟩
      obtain ⟨hanswered, hlost⟩ := hnext now hrely hheld
      exact ⟨fun answer later hserved => ih _ (hanswered answer later hserved),
        fun loss => ih _ (hlost loss)⟩

/-- One program after another. -/
theorem Safe.bind {first : Program Op Answer Loss First}
    {continuation : First → Program Op Answer Loss Second}
    {promise : Second → Set Name → World → Prop}
    (hheld : discipline.Held held world)
    (hfirst : Safe discipline
      (fun result held world => Safe discipline promise (continuation result)
        held world) first held world) :
    Safe discipline promise (first >>= continuation) held world := by
  induction first generalizing held world with
  | done result => exact hfirst world .refl hheld
  | ask op next ih =>
      obtain ⟨hnames, hlands, hnext⟩ := hfirst
      refine ⟨hnames, hlands, fun now hrely hnow => ?_⟩
      obtain ⟨hanswered, hlost⟩ := hnext now hrely hnow
      constructor
      · intro answer later hserved
        have hspends := hlands now (hrely.mono hnames) (hnow.mono hnames) answer
          later hserved
        exact ih _ (hnow.kept hspends) (hanswered answer later hserved)
      · exact fun loss => ih _ (hnow.mono Set.sdiff_subset) (hlost loss)

/-- An operation that leaves the world as it is. -/
theorem Safe.observed {op : Op}
    {next : Except Loss (Answer op) → Program Op Answer Loss Result}
    (hnames : discipline.names op = ∅)
    (hserve : ∀ now answer later, discipline.serve op now answer later →
      later = now)
    (hstill : ∀ now, discipline.lawful now now)
    (hnext : ∀ now, discipline.Rely held world now → discipline.Held held now →
      (∀ answer, discipline.serve op now answer now →
        Safe discipline promise (next (.ok answer)) held now) ∧
      ∀ loss, Safe discipline promise (next (.error loss)) held now) :
    Safe discipline promise (ask op next) held world := by
  refine Safe.asked hnames ?_ ?_
  · intro now _ hvalid answer later hserved
    rw [hserve now answer later hserved]
    exact ⟨hstill now, hvalid, subset_rfl, Set.subset_union_left⟩
  · intro now hrely hheld
    obtain ⟨hanswered, hlost⟩ := hnext now hrely hheld
    refine ⟨fun answer later hserved => ?_, hlost⟩
    have hlater := hserve now answer later hserved
    subst hlater
    rw [hheld.kept_self]
    exact hanswered answer hserved

/-- A program leaves the names it was not given to their holder. -/
theorem Safe.frame {frame : Set Name} {start : World}
    {program : Program Op Answer Loss Result}
    (hsafe : Safe discipline promise program held world)
    (hapart : Disjoint held frame) (hstart : discipline.Rely frame start world) :
    Safe discipline
      (fun result all now => ∃ own, all = own ∪ frame ∧
        discipline.Rely frame start now ∧ promise result own now)
      program (held ∪ frame) world := by
  induction program generalizing held world with
  | done result =>
      intro now hrely hheld
      refine ⟨held, rfl, ?_, ?_⟩
      · exact hstart.trans (hrely.mono Set.subset_union_right)
      · exact hsafe now (hrely.mono Set.subset_union_left)
          (hheld.mono Set.subset_union_left)
  | ask op next ih =>
      obtain ⟨hnames, hlands, hnext⟩ := hsafe
      refine ⟨hnames.trans Set.subset_union_left, hlands, ?_⟩
      intro now hrely hheld
      have hown := hheld.mono Set.subset_union_left
      have hframe := hheld.mono Set.subset_union_right
      have hwaited := hstart.trans (hrely.mono Set.subset_union_right)
      have hrest := hrely.mono Set.subset_union_left
      have hothers := hapart.mono_left hnames
      obtain ⟨hanswered, hlost⟩ := hnext now hrest hown
      constructor
      · intro answer later hserved
        have hspends := hlands now (hrest.mono hnames) (hown.mono hnames) answer
          later hserved
        obtain ⟨hkept, hdisjoint⟩ := kept_union hspends hframe hothers
        rw [hkept]
        refine ih _ (hanswered answer later hserved) ?_ ?_
        · rwa [hapart.symm.sdiff_eq_left] at hdisjoint
        · exact hwaited.tail ⟨_, hothers, hspends⟩
      · intro loss
        rw [Set.union_sdiff_distrib, hothers.symm.sdiff_eq_left]
        exact ih _ (hlost loss) (hapart.mono_left Set.sdiff_subset) hwaited

/-- A program that needs no name, and then what its caller makes of the result. -/
theorem Safe.call {first : Program Op Answer Loss First}
    {continuation : First → Program Op Answer Loss Second}
    {post : First → Set Name → World → Prop}
    {promise : Second → Set Name → World → Prop}
    (hheld : discipline.Held held world)
    (hfirst : Safe discipline post first ∅ world)
    (hnext : ∀ result own now, discipline.Rely held world now →
      discipline.Held (own ∪ held) now → post result own now →
        Safe discipline promise (continuation result) (own ∪ held) now) :
    Safe discipline promise (first >>= continuation) held world := by
  have hframed := hfirst.frame (Set.empty_disjoint held) .refl
  rw [Set.empty_union] at hframed
  refine Safe.bind hheld (hframed.weaken ?_)
  rintro result all now hall ⟨own, rfl, hrely, hpost⟩
  exact hnext result own now hrely hall hpost

end Rules

/-! ## Interleavings -/

/-- The calls that may be made, and what each promises when it ends. -/
structure Service (World Op : Type) (Answer : Op → Type) (Loss : Type) where
  Call : Type
  Result : Type
  starts : Call → World → Prop
  program : Call → Program Op Answer Loss Result
  promise : Call → Result → World → Prop

/-- A world, the calls under way, and the operations left out. -/
structure System (service : Service World Op Answer Loss) where
  world : World
  running : ℕ → Option
    (service.Call × Program Op Answer Loss service.Result)
  waiting : ℕ → Option Op

variable {service : Service World Op Answer Loss}

/-- One step of an interleaving. -/
inductive Step : System service → System service → Prop where
  | start {system : System service} {process : ℕ} {call : service.Call} :
      system.running process = none → service.starts call system.world →
      Step system { system with
        running := Function.update system.running process
          (some (call, service.program call)) }
  | serve {system : System service} {process : ℕ} {call : service.Call} {op : Op}
      {next : Except Loss (Answer op) → Program Op Answer Loss service.Result}
      {answer : Answer op} {later : World} :
      system.running process = some (call, ask op next) →
      discipline.serve op system.world answer later →
      Step system { system with
        world := later
        running := Function.update system.running process
          (some (call, next (.ok answer))) }
  | abandon {system : System service} {process ticket : ℕ} {call : service.Call}
      {op : Op} {next : Except Loss (Answer op) →
        Program Op Answer Loss service.Result} {loss : Loss} :
      system.running process = some (call, ask op next) →
      system.waiting ticket = none →
      Step system { system with
        running := Function.update system.running process
          (some (call, next (.error loss)))
        waiting := Function.update system.waiting ticket (some op) }
  | land {system : System service} {ticket : ℕ} {op : Op} {answer : Answer op}
      {later : World} :
      system.waiting ticket = some op →
      discipline.serve op system.world answer later →
      Step system { system with
        world := later
        waiting := Function.update system.waiting ticket none }
  | turn {system : System service} {later : World} :
      discipline.turn system.world later →
      Step system { system with world := later }

/-- Systems reached from a world at rest. -/
def Reachable (init : World) (system : System service) : Prop :=
  Relation.ReflTransGen (Step discipline)
    { world := init, running := fun _ => none, waiting := fun _ => none } system

/-- Every call keeps to the discipline, from any world it may start in. -/
structure Disciplined (service : Service World Op Answer Loss) : Prop where
  turn : ∀ before after, discipline.valid before →
    discipline.turn before after → discipline.Spends ∅ before after
  safe : ∀ call world, discipline.Held ∅ world → service.starts call world →
    Safe discipline (fun result _ now => service.promise call result now)
      (service.program call) ∅ world

/-- A program served to its end with nobody in between. -/
inductive Served {Result : Type} :
    Program Op Answer Loss Result → World → Result → World → Prop where
  | done (result : Result) (world : World) :
      Served (.done result) world result world
  | ask {op : Op} {next : Except Loss (Answer op) →
        Program Op Answer Loss Result} {before between after : World}
      (answer : Answer op) {result : Result} :
      discipline.serve op before answer between →
      Served (next (.ok answer)) between result after →
      Served (.ask op next) before result after

/-- A program served for a while with nobody in between. -/
inductive Advances {Result : Type} :
    Program Op Answer Loss Result → World →
      Program Op Answer Loss Result → World → Prop where
  | refl (program : Program Op Answer Loss Result) (world : World) :
      Advances program world program world
  | ask {op : Op} {next : Except Loss (Answer op) →
        Program Op Answer Loss Result} {before between after : World}
      (answer : Answer op) {rest : Program Op Answer Loss Result} :
      discipline.serve op before answer between →
      Advances (next (.ok answer)) between rest after →
      Advances (.ask op next) before rest after

variable {discipline} in
theorem Served.advances {Result : Type} {program : Program Op Answer Loss Result}
    {before after : World} {result : Result}
    (hserved : Served discipline program before result after) :
    Advances discipline program before (.done result) after := by
  induction hserved with
  | done result world => exact .refl _ _
  | ask answer hanswered _ ih => exact .ask answer hanswered ih

variable {discipline} in
/-- A call under way is served for a while. -/
theorem Reachable.advances {init : World} {system : System service}
    (hreachable : Reachable discipline init system) {process : ℕ}
    {call : service.Call} {program rest : Program Op Answer Loss service.Result}
    {later : World} (hrunning : system.running process = some (call, program))
    (hadvances : Advances discipline program system.world rest later) :
    Reachable discipline init { system with
      world := later
      running := Function.update system.running process (some (call, rest)) } := by
  obtain ⟨world, running, waiting⟩ := system
  dsimp only at hrunning hadvances ⊢
  induction hadvances generalizing running with
  | refl program world =>
      rwa [Function.update_eq_self_iff.mpr hrunning.symm]
  | ask answer hserved _ ih =>
      have hstep := hreachable.tail (Step.serve hrunning hserved)
      have hrest := ih _ hstep (Function.update_self _ _ _)
      rwa [Function.update_idem] at hrest

variable {discipline} in
/-- A call made by an idle process and served for a while. -/
theorem Reachable.starts {init : World} {system : System service}
    (hreachable : Reachable discipline init system) (process : ℕ)
    (call : service.Call) {rest : Program Op Answer Loss service.Result}
    {later : World} (hidle : system.running process = none)
    (hstarts : service.starts call system.world)
    (hadvances : Advances discipline (service.program call) system.world rest
      later) :
    Reachable discipline init { system with
      world := later
      running := Function.update system.running process (some (call, rest)) } := by
  have hstarted : Reachable discipline init _ :=
    hreachable.tail (.start hidle hstarts)
  have hserved := hstarted.advances (Function.update_self _ _ _) hadvances
  rwa [Function.update_idem] at hserved

variable {discipline} in
/-- A call made by an idle process and served to its end. -/
theorem Reachable.served {init : World} {system : System service}
    (hreachable : Reachable discipline init system) (process : ℕ)
    (call : service.Call) {result : service.Result} {later : World}
    (hidle : system.running process = none)
    (hstarts : service.starts call system.world)
    (hserved : Served discipline (service.program call) system.world result
      later) :
    ∃ after : System service, Reachable discipline init after ∧
      after.world = later ∧ ∀ other, other ≠ process →
        after.running other = system.running other :=
  ⟨_, hreachable.starts process call hidle hstarts hserved.advances, rfl,
    fun _ hother => Function.update_of_ne hother _ _⟩

section Soundness

variable {discipline} {system : System service} {own : ℕ ⊕ ℕ → Set Name}

/-- Every program is safe with the names it holds, every operation left out is
lawful whenever it lands, and no name has two holders.  A holder is a process or
a ticket. -/
structure Sound (discipline : Discipline World Name Op Answer)
    (system : System service) (own : ℕ ⊕ ℕ → Set Name) : Prop where
  running : ∀ process call program,
    system.running process = some (call, program) →
      Safe discipline (fun result _ now => service.promise call result now)
        program (own (.inl process)) system.world
  idle : ∀ process, system.running process = none → own (.inl process) = ∅
  waiting : ∀ ticket op, system.waiting ticket = some op →
    discipline.Lands op system.world ∧ own (.inr ticket) = discipline.names op
  held : ∀ holder, discipline.Held (own holder) system.world
  apart : ∀ holder other, holder ≠ other → Disjoint (own holder) (own other)

omit discipline in
theorem update_eq {Index Value : Type} [DecidableEq Index]
    {table : Index → Value} {changed index : Index} {value result : Value}
    (hupdate : Function.update table changed value index = result) :
    index = changed ∧ value = result ∨ index ≠ changed ∧ table index = result := by
  by_cases hsame : index = changed
  · subst hsame
    rw [Function.update_self] at hupdate
    exact Or.inl ⟨rfl, hupdate⟩
  · rw [Function.update_of_ne hsame] at hupdate
    exact Or.inr ⟨hsame, hupdate⟩

theorem sound_init {init : World} (hinit : discipline.valid init) :
    Sound discipline
      ({ world := init, running := fun _ => none, waiting := fun _ => none } :
        System service) (fun _ => ∅) where
  running := nofun
  idle := fun _ _ => rfl
  waiting := nofun
  held := fun _ => ⟨hinit, Set.empty_subset _, Set.empty_disjoint _⟩
  apart := fun _ _ _ => Set.empty_disjoint _

/-- What one holder spends is nobody else's. -/
theorem Sound.others (hsound : Sound discipline system own) {holder : ℕ ⊕ ℕ}
    {names : Set Name} {later : World} (hnames : names ⊆ own holder)
    (hspends : discipline.Spends names system.world later) {other : ℕ ⊕ ℕ}
    (hother : other ≠ holder) :
    discipline.Others (own other) system.world later :=
  ⟨names, (hsound.apart _ _ hother.symm).mono_left hnames, hspends⟩

/-- Nothing that was minted later is another's. -/
theorem Sound.apart_kept (hsound : Sound discipline system own)
    {holder other : ℕ ⊕ ℕ} (later : World) (hother : other ≠ holder) :
    Disjoint (discipline.kept (own holder) system.world later) (own other) := by
  rw [Set.disjoint_left]
  rintro name ⟨hname | hname, -⟩ hheld
  · exact Set.disjoint_left.mp (hsound.apart _ _ hother.symm) hname hheld
  · exact hname.2 ((hsound.held other).minted hheld)

theorem disjoint_update {holder : ℕ ⊕ ℕ} {names : Set Name}
    (hapart : ∀ first second, first ≠ second → Disjoint (own first) (own second))
    (hnames : ∀ other, other ≠ holder → Disjoint names (own other)) :
    ∀ first second, first ≠ second →
      Disjoint (Function.update own holder names first)
        (Function.update own holder names second) := by
  intro first second hne
  by_cases hfirst : first = holder
  · subst hfirst
    rw [Function.update_self, Function.update_of_ne hne.symm]
    exact hnames second hne.symm
  rw [Function.update_of_ne hfirst]
  by_cases hsecond : second = holder
  · subst hsecond
    rw [Function.update_self]
    exact (hnames first hfirst).symm
  rw [Function.update_of_ne hsecond]
  exact hapart first second hne

theorem Sound.start (hsound : Sound discipline system own)
    (hdisciplined : Disciplined discipline service) {process : ℕ}
    {call : service.Call} (hidle : system.running process = none)
    (hstarts : service.starts call system.world) :
    Sound discipline { system with
      running := Function.update system.running process
        (some (call, service.program call)) } own where
  running := by
    intro other called program hrunning
    rcases update_eq hrunning with ⟨rfl, hcalled⟩ | ⟨-, hcalled⟩
    · cases hcalled
      have hheld := hsound.held (.inl other)
      rw [hsound.idle other hidle] at hheld ⊢
      exact hdisciplined.safe call _ hheld hstarts
    · exact hsound.running other called program hcalled
  idle := by
    intro other hother
    rcases update_eq hother with ⟨-, hcalled⟩ | ⟨-, hcalled⟩
    · cases hcalled
    · exact hsound.idle other hcalled
  waiting := hsound.waiting
  held := hsound.held
  apart := hsound.apart

theorem Sound.serve (hsound : Sound discipline system own) {process : ℕ}
    {call : service.Call} {op : Op}
    {next : Except Loss (Answer op) → Program Op Answer Loss service.Result}
    {answer : Answer op} {later : World}
    (hasking : system.running process = some (call, ask op next))
    (hserved : discipline.serve op system.world answer later) :
    discipline.lawful system.world later ∧
    Sound discipline { system with
      world := later
      running := Function.update system.running process
        (some (call, next (.ok answer))) }
      (Function.update own (.inl process)
        (discipline.kept (own (.inl process)) system.world later)) := by
  obtain ⟨hnames, hlands, hnext⟩ := hsound.running process call _ hasking
  have hheld := hsound.held (.inl process)
  have hspends := hlands system.world .refl (hheld.mono hnames) answer later
    hserved
  have hothers : ∀ other, other ≠ .inl process →
      discipline.Others (own other) system.world later := fun other =>
    hsound.others hnames hspends
  refine ⟨hspends.lawful, ?_⟩
  constructor
  case running =>
    intro other called program hrunning
    rcases update_eq hrunning with ⟨rfl, hcalled⟩ | ⟨hsame, hcalled⟩
    · cases hcalled
      rw [Function.update_self]
      exact (hnext system.world .refl hheld).1 answer later hserved
    · rw [Function.update_of_ne (Sum.inl_injective.ne hsame)]
      exact (hsound.running other called program hcalled).rely
        (.single (hothers _ (Sum.inl_injective.ne hsame)))
  case idle =>
    intro other hidle
    rcases update_eq hidle with ⟨-, hcalled⟩ | ⟨hsame, hcalled⟩
    · cases hcalled
    · rw [Function.update_of_ne (Sum.inl_injective.ne hsame)]
      exact hsound.idle other hcalled
  case waiting =>
    intro ticket waited hwaiting
    obtain ⟨hwaits, hticket⟩ := hsound.waiting ticket waited hwaiting
    rw [Function.update_of_ne Sum.inr_ne_inl]
    refine ⟨hwaits.rely (.single ?_), hticket⟩
    rw [← hticket]
    exact hothers _ Sum.inr_ne_inl
  case held =>
    intro holder
    by_cases hsame : holder = .inl process
    · rw [hsame, Function.update_self]
      exact hheld.kept hspends
    · rw [Function.update_of_ne hsame]
      exact (hsound.held holder).others (hothers holder hsame)
  case apart =>
    exact disjoint_update hsound.apart fun other hother =>
      hsound.apart_kept later hother

theorem Sound.abandon (hsound : Sound discipline system own)
    {process ticket : ℕ} {call : service.Call} {op : Op}
    {next : Except Loss (Answer op) → Program Op Answer Loss service.Result}
    {loss : Loss}
    (hasking : system.running process = some (call, ask op next)) :
    Sound discipline { system with
      running := Function.update system.running process
        (some (call, next (.error loss)))
      waiting := Function.update system.waiting ticket (some op) }
      (Function.update
        (Function.update own (.inl process)
          (own (.inl process) \ discipline.names op))
        (.inr ticket) (discipline.names op)) := by
  obtain ⟨hnames, hlands, hnext⟩ := hsound.running process call _ hasking
  have hheld := hsound.held (.inl process)
  constructor
  case running =>
    intro other called program hrunning
    rw [Function.update_of_ne Sum.inl_ne_inr]
    rcases update_eq hrunning with ⟨rfl, hcalled⟩ | ⟨hsame, hcalled⟩
    · cases hcalled
      rw [Function.update_self]
      exact (hnext system.world .refl hheld).2 loss
    · rw [Function.update_of_ne (Sum.inl_injective.ne hsame)]
      exact hsound.running other called program hcalled
  case idle =>
    intro other hidle
    rcases update_eq hidle with ⟨-, hcalled⟩ | ⟨hsame, hcalled⟩
    · cases hcalled
    · rw [Function.update_of_ne Sum.inl_ne_inr,
        Function.update_of_ne (Sum.inl_injective.ne hsame)]
      exact hsound.idle other hcalled
  case waiting =>
    intro other waited hwaiting
    rcases update_eq hwaiting with ⟨rfl, hwaited⟩ | ⟨hsame, hwaited⟩
    · cases hwaited
      rw [Function.update_self]
      exact ⟨hlands, rfl⟩
    · rw [Function.update_of_ne (Sum.inr_injective.ne hsame),
        Function.update_of_ne Sum.inr_ne_inl]
      exact hsound.waiting other waited hwaited
  case held =>
    intro holder
    by_cases hticket : holder = .inr ticket
    · rw [hticket, Function.update_self]
      exact hheld.mono hnames
    rw [Function.update_of_ne hticket]
    by_cases hsame : holder = .inl process
    · rw [hsame, Function.update_self]
      exact hheld.mono Set.sdiff_subset
    · rw [Function.update_of_ne hsame]
      exact hsound.held holder
  case apart =>
    refine disjoint_update (disjoint_update hsound.apart ?_) ?_
    · intro other hother
      exact (hsound.apart _ _ hother.symm).mono_left Set.sdiff_subset
    · intro other hother
      by_cases hsame : other = .inl process
      · rw [hsame, Function.update_self]
        exact Set.disjoint_sdiff_right
      · rw [Function.update_of_ne hsame]
        exact (hsound.apart _ _ (Ne.symm hsame)).mono_left hnames

theorem Sound.land (hsound : Sound discipline system own) {ticket : ℕ} {op : Op}
    {answer : Answer op} {later : World}
    (hwaiting : system.waiting ticket = some op)
    (hserved : discipline.serve op system.world answer later) :
    discipline.lawful system.world later ∧
    Sound discipline { system with
      world := later
      waiting := Function.update system.waiting ticket none }
      (Function.update own (.inr ticket)
        (discipline.kept (own (.inr ticket)) system.world later)) := by
  obtain ⟨hlands, hticket⟩ := hsound.waiting ticket op hwaiting
  have hheld := hsound.held (.inr ticket)
  have hspends := hlands system.world .refl (hticket ▸ hheld) answer later
    hserved
  have hothers : ∀ other, other ≠ .inr ticket →
      discipline.Others (own other) system.world later := fun other =>
    hsound.others hticket.symm.subset hspends
  refine ⟨hspends.lawful, ?_⟩
  constructor
  case running =>
    intro other called program hrunning
    rw [Function.update_of_ne Sum.inl_ne_inr]
    exact (hsound.running other called program hrunning).rely
      (.single (hothers _ Sum.inl_ne_inr))
  case idle =>
    intro other hidle
    rw [Function.update_of_ne Sum.inl_ne_inr]
    exact hsound.idle other hidle
  case waiting =>
    intro other waited hwaited
    rcases update_eq hwaited with ⟨-, hgone⟩ | ⟨hsame, hstays⟩
    · cases hgone
    · obtain ⟨hwaits, hnames⟩ := hsound.waiting other waited hstays
      rw [Function.update_of_ne (Sum.inr_injective.ne hsame)]
      refine ⟨hwaits.rely (.single ?_), hnames⟩
      rw [← hnames]
      exact hothers _ (Sum.inr_injective.ne hsame)
  case held =>
    intro holder
    by_cases hsame : holder = .inr ticket
    · rw [hsame, Function.update_self]
      exact hheld.kept hspends
    · rw [Function.update_of_ne hsame]
      exact (hsound.held holder).others (hothers holder hsame)
  case apart =>
    exact disjoint_update hsound.apart fun other hother =>
      hsound.apart_kept later hother

theorem Sound.turn (hsound : Sound discipline system own) {later : World}
    (hspends : discipline.Spends ∅ system.world later) :
    Sound discipline { system with world := later } own where
  running process call program hrunning :=
    (hsound.running process call program hrunning).rely
      (.single ⟨∅, Set.empty_disjoint _, hspends⟩)
  idle := hsound.idle
  waiting ticket op hwaiting := by
    obtain ⟨hwaits, hnames⟩ := hsound.waiting ticket op hwaiting
    exact ⟨hwaits.rely (.single ⟨∅, Set.empty_disjoint _, hspends⟩), hnames⟩
  held holder := (hsound.held holder).others ⟨∅, Set.empty_disjoint _, hspends⟩
  apart := hsound.apart

/-- One step changes the world lawfully, if at all, and keeps everything sound. -/
theorem Sound.step (hdisciplined : Disciplined discipline service)
    (hsound : Sound discipline system own) {later : System service}
    (hstep : Step discipline system later) :
    Relation.ReflGen (fun before after =>
        discipline.valid before ∧ discipline.lawful before after)
      system.world later.world ∧
      ∃ own', Sound discipline later own' := by
  have hvalid := (hsound.held (.inl 0)).valid
  cases hstep with
  | start hidle hstarts =>
      exact ⟨.refl, _, hsound.start hdisciplined hidle hstarts⟩
  | serve hasking hserved =>
      obtain ⟨hlawful, hlater⟩ := hsound.serve hasking hserved
      exact ⟨.single ⟨hvalid, hlawful⟩, _, hlater⟩
  | abandon hasking _ => exact ⟨.refl, _, hsound.abandon hasking⟩
  | land hwaiting hserved =>
      obtain ⟨hlawful, hlater⟩ := hsound.land hwaiting hserved
      exact ⟨.single ⟨hvalid, hlawful⟩, _, hlater⟩
  | turn hturn =>
      have hspends := hdisciplined.turn _ _ hvalid hturn
      exact ⟨.single ⟨hvalid, hspends.lawful⟩, _, hsound.turn hspends⟩

/-- Every interleaving reaches its world by lawful changes of valid worlds. -/
theorem reachable_sound (hdisciplined : Disciplined discipline service)
    {init : World} (hinit : discipline.valid init)
    (hreachable : Reachable discipline init system) :
    Relation.ReflTransGen (fun before after =>
        discipline.valid before ∧ discipline.lawful before after)
      init system.world ∧
      ∃ own, Sound discipline system own := by
  induction hreachable with
  | refl => exact ⟨.refl, _, sound_init hinit⟩
  | tail _ hstep ih =>
      obtain ⟨hworld, own, hsound⟩ := ih
      obtain ⟨hlater, hkept⟩ := hsound.step hdisciplined hstep
      exact ⟨hworld.trans hlater.to_reflTransGen, hkept⟩

/-- What lawful changes preserve holds in every world reached. -/
theorem reachable_invariant (hdisciplined : Disciplined discipline service)
    {motive : World → Prop} {init : World} (hvalid : discipline.valid init)
    (hinit : motive init)
    (hlawful : ∀ before after, motive before → discipline.valid before →
      discipline.lawful before after → motive after)
    (hreachable : Reachable discipline init system) : motive system.world := by
  have hworld := (reachable_sound hdisciplined hvalid hreachable).1
  generalize system.world = world at hworld ⊢
  induction hworld with
  | refl => exact hinit
  | tail _ hchange ih => exact hlawful _ _ ih hchange.1 hchange.2

/-- Every world reached is valid. -/
theorem reachable_valid (hdisciplined : Disciplined discipline service)
    {init : World} (hinit : discipline.valid init)
    (hreachable : Reachable discipline init system) :
    discipline.valid system.world := by
  obtain ⟨-, own, hsound⟩ := reachable_sound hdisciplined hinit hreachable
  exact (hsound.held (.inl 0)).valid

/-- A call that ended keeps its promise, from then on. -/
theorem reachable_promise (hdisciplined : Disciplined discipline service)
    {init : World} (hinit : discipline.valid init)
    (hreachable : Reachable discipline init system)
    {process : ℕ} {call : service.Call} {result : service.Result}
    (hended : system.running process = some (call, done result)) :
    service.promise call result system.world := by
  obtain ⟨-, own, hsound⟩ := reachable_sound hdisciplined hinit hreachable
  exact hsound.running process call _ hended system.world .refl
    (hsound.held (.inl process))

end Soundness

end Connecta.Programs
