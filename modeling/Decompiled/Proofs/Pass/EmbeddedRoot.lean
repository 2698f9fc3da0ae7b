import Decompiled.Proofs.Arena.Traversal
import Decompiled.Proofs.Pass.Collapse
import Decompiled.Proofs.Run.Failure
import Decompiled.Proofs.Run.History

/-!
# When removing embedded types fails

There is nothing around a root that it could be removed from, so the sweep fails
where the root itself would have to go. A root that is a helper comes first and
fails at once. A namespace goes with its last member, when all members before it
have gone already, so the sweep fails half way and leaves that member.

* `EmbeddedTypes.turns_upto`: as long as the root does not go, visits succeed.
* `EmbeddedTypes.fails_of_helper`, `EmbeddedTypes.fails_of_lastOf`: where it goes.
* `EmbeddedTypes.fails_iff_root_goes`: the outcome for any root below nothing.
-/

namespace Decompiled.EmbeddedTypes

open Work

variable {tree : SyntaxTree} {a b : Arena} {d i last p x : NodeIndex}
  {done rest : List NodeIndex}

/-! ## Visits that fail -/

/-- A helper below nothing cannot be removed. -/
theorem fails_visit_of_parentless (hlive : tree.arena.isLive i = true)
    (hhelper : isHelper tree i = true) (hp : tree.arena.parent? i = none) :
    (EmbeddedTypes.visit i).Fails (.tree (.noParent i)) tree tree := by
  unfold EmbeddedTypes.visit
  apply Fails.look_bind
  rw [hlive, hhelper]
  refine .bind ?_
  show (removeHelper i).Fails (.tree (.noParent i)) tree tree
  unfold removeHelper
  apply Fails.look_bind
  rw [hp]
  exact .fail _

/-- Neither can a namespace below nothing, with its only member. -/
theorem fails_visit_of_collapse (hlive : tree.arena.isLive i = true)
    (hhelper : isHelper tree i = true) (hp : tree.arena.parent? i = some p)
    (hsingle : isSingleMemberNamespace tree.arena p = true)
    (hplive : tree.arena.isLive p = true) (htop : tree.arena.parent? p = none) :
    (EmbeddedTypes.visit i).Fails (.tree (.noParent p)) tree tree := by
  unfold EmbeddedTypes.visit
  apply Fails.look_bind
  rw [hlive, hhelper]
  refine .bind ?_
  show (removeHelper i).Fails (.tree (.noParent p)) tree tree
  unfold removeHelper
  apply Fails.look_bind
  rw [hp]
  apply Fails.look_bind
  rw [hsingle]
  exact .after (.record _) fun _ => .edit (Edit.remove_of_parentless hplive htop)

/-! ## Visits that succeed -/

section Listed

variable (hlinks : tree.arena.WellLinked) (hnamed : NamespacesNamed tree.arena)

include hlinks

/-- The root goes with its last member only, so it does not go before that one
has been looked at. -/
theorem not_doomed_of_lastOf (hlist : sweep.nodes tree = done ++ last :: rest)
    (h : LastOf tree.arena (Helper tree) last p) : ¬ Doomed tree.arena (Seen tree done) p := by
  obtain ⟨hkind, before, hmembers, -⟩ := h
  intro hdoomed
  cases hdoomed with
  | helper hseen =>
      rw [hseen.1.kind] at hkind
      cases hkind
  | @collapse _ last' _ _ hmembers' hseen _ =>
      rw [hmembers] at hmembers'
      obtain ⟨-, hsame⟩ := List.append_inj' hmembers' rfl
      rw [← List.singleton_inj.mp hsame] at hseen
      exact not_seen_next hlinks hlist hseen

/-- Helpers to the left of a declaration are looked at before it. -/
theorem mem_of_leftOf (hlist : sweep.nodes tree = done ++ i :: rest) (hx : Helper tree x)
    (hleft : tree.arena.LeftOf x i) : x ∈ done := by
  have hmem := hx.listed hlinks
  rw [hlist, List.mem_append, List.mem_cons] at hmem
  rcases hmem with hdone | rfl | hrest
  · exact hdone
  · exact absurd hleft (Arena.LeftOf.irrefl hlinks)
  · obtain ⟨front, back, rfl⟩ := List.append_of_mem hrest
    have hlater : sweep.nodes tree = (done ++ i :: front) ++ x :: back := by
      rw [hlist, List.append_assoc, List.cons_append]
    have hbefore := Arena.before_of_mem hlinks hlater
      List.mem_append_cons_self
    exact absurd hleft (hbefore.not_leftOf hlinks)

/-- When the last member of a namespace is looked at, all helpers that decide about
the members before it have been. -/
theorem LastOf.seen (hlist : sweep.nodes tree = done ++ last :: rest)
    (h : LastOf tree.arena (Helper tree) last p) :
    LastOf tree.arena (Seen tree done) last p := by
  obtain ⟨hkind, before, hmembers, hbefore⟩ := h
  refine ⟨hkind, before, hmembers, fun m hm => ?_⟩
  refine (hbefore m hm).mono_within hlinks fun x hx hw => ⟨hx, ?_⟩
  exact mem_of_leftOf hlinks hlist hx ((leftOf_last hlinks hmembers hm).below hw .self)

include hnamed

/-- What goes with a helper is below another node, unless it is the root. -/
theorem parent_of_kept (hlist : sweep.nodes tree = done ++ i :: rest)
    (hprunes : tree.arena.Prunes (Doomed tree.arena (Seen tree done)) b)
    (hkept : ¬ Doomed tree.arena (Seen tree (done ++ [i])) tree.root)
    (hlive : b.isLive i = true) (hhelper : isHelper tree i = true) :
    ∃ p, b.parent? i = some p ∧ ∃ q, b.parent? (target b i) = some q := by
  have hseen := seen_next hlinks hlist hhelper
  have hne : i ≠ tree.root := by
    rintro rfl
    exact hkept (.helper hseen)
  obtain ⟨p, hp, hwp⟩ := hseen.1.below.exists_parent hne
  have hpb : b.parent? i = some p := (hprunes.thins.hangs hlive).trans hp
  refine ⟨p, hpb, ?_⟩
  rw [target_of_parent hpb]
  split
  · rename_i hsingle
    have hlast := (isSingleMemberNamespace_iff hlinks hlist hnamed hprunes hlive hp
      hseen.1.kind).mp hsingle
    have hpne : p ≠ tree.root := by
      rintro rfl
      exact hkept (hlast.doomed hlinks (fun _ => Seen.more) hseen)
    obtain ⟨q, hq, -⟩ := hwp.exists_parent hpne
    have hplive : b.isLive p = true := (hprunes.thins.links.together hpb).symm.trans hlive
    exact ⟨q, (hprunes.thins.hangs hplive).trans hq⟩
  · exact ⟨p, hpb⟩

/-- As long as the root does not go, visits succeed and remove what goes. -/
theorem turns_upto (hlist : sweep.nodes tree = done ++ rest)
    (hkept : ¬ Doomed tree.arena (Seen tree done) tree.root) :
    ∃ b, (∀ changes, (sweep.visitAll changes done).Turns tree { tree with arena := b }) ∧
      tree.arena.Prunes (Doomed tree.arena (Seen tree done)) b := by
  have hvisits : ∃ t, (∀ changes, (sweep.visitAll changes done).Turns tree t) ∧
      ∃ b, t = { tree with arena := b } ∧
        tree.arena.Prunes (Doomed tree.arena (Seen tree done)) b := by
    refine Sweep.turns_visitAll
      (I := fun done t => ∃ b, t = { tree with arena := b } ∧
        tree.arena.Prunes (Doomed tree.arena (Seen tree done)) b)
      ?_ ⟨_, rfl, prunes_start hlinks⟩
    rintro front i back rfl t ⟨b, rfl, hb⟩
    have hlist' : sweep.nodes tree = front ++ i :: (back ++ rest) := by
      rw [hlist, List.append_assoc, List.cons_append]
    have hkept' : ¬ Doomed tree.arena (Seen tree (front ++ [i])) tree.root := by
      refine fun habs => hkept (habs.mono hlinks fun x hx => ⟨hx.1, ?_⟩)
      rw [← List.singleton_append, ← List.append_assoc]
      exact List.mem_append_left _ hx.2
    have hparent := parent_of_kept hlinks hnamed hlist' hb hkept'
    have hturns : (EmbeddedTypes.visit i).Turns { tree with arena := b }
        { tree with arena := dropAt tree b i } := turns_visit hb.thins.links hparent
    exact ⟨_, hturns, _, rfl, prunes_dropAt hlinks hlist' hnamed hb hparent⟩
  obtain ⟨-, hturns, b, rfl, hprunes⟩ := hvisits
  exact ⟨b, hturns, hprunes⟩

end Listed

/-! ## The whole sweep -/

/-- The sweep succeeds if the root does not go. -/
theorem turns_of_kept (hlinks : tree.arena.WellLinked) (hnamed : NamespacesNamed tree.arena)
    (hkept : ¬ Doomed tree.arena (Helper tree) tree.root) :
    ∃ b, pass.run.Turns tree { tree with arena := b } := by
  obtain ⟨b, hturns, -⟩ := turns_upto hlinks hnamed (List.append_nil _).symm
    (fun habs => hkept ((doomed_seen_all hlinks).mp habs))
  refine ⟨b, ?_⟩
  show sweep.run.Turns tree { tree with arena := b }
  apply Turns.look_bind
  exact .bind (hturns 0) fun _ => .pure ()

section Root

variable (hlinks : tree.arena.WellLinked) (hroot : tree.arena.parent? tree.root = none)

include hlinks hroot

/-- A root that is a helper is the first declaration, and cannot be removed. -/
theorem fails_of_helper (hhelper : Helper tree tree.root) :
    pass.run.Fails (.tree (.noParent tree.root)) tree tree := by
  obtain ⟨rest, hlist⟩ : ∃ rest, sweep.nodes tree = [] ++ tree.root :: rest := by
    have hwalk := Arena.listsBelow_descendantsAndSelf hlinks tree.root
    rw [hhelper.live, if_pos rfl] at hwalk
    show ∃ rest, (tree.arena.descendantsAndSelf tree.root).filter _ = _
    rw [hwalk, List.filter_cons, hhelper.kind]
    exact ⟨_, rfl⟩
  exact Sweep.fails_run hlist .pure
    (fails_visit_of_parentless hhelper.live hhelper.known hroot)

/-- A namespace that goes with its last member loses all other members, and keeps
that one with all below it. -/
theorem fails_of_lastOf (hnamed : NamespacesNamed tree.arena)
    (hlive : tree.arena.isLive tree.root = true) (hhelper : Helper tree last)
    (hlast : LastOf tree.arena (Helper tree) last tree.root) :
    ∃ b, pass.run.Fails (.tree (.noParent tree.root)) tree { tree with arena := b } ∧
      b.members tree.root = [last] ∧
      ∃ tops, tree.arena.Prunes tops b ∧
        ∀ d, tops d → ¬ tree.arena.Within d last ∧ ¬ tree.arena.Within last d := by
  obtain ⟨done, rest, hlist⟩ := List.append_of_mem (hhelper.listed hlinks)
  have hkept := not_doomed_of_lastOf hlinks hlist hlast
  obtain ⟨b, hturns, hprunes⟩ := turns_upto hlinks hnamed hlist hkept
  have hparent := hlast.parent_eq hlinks
  have hlastkept : ¬ Doomed tree.arena (Seen tree done) last := by
    intro habs
    refine not_seen_next hlinks hlist (habs.known_of_kind ?_)
    rw [hhelper.kind]
    decide
  have hrootlive : b.isLive tree.root = true :=
    hprunes.isLive_of_apart hlive fun d hd hw => hkept (hw.eq_of_parentless hroot ▸ hd)
  have hlastlive := hprunes.child_live hlinks hrootlive hparent hlastkept
  have hsingle : isSingleMemberNamespace b tree.root = true :=
    (isSingleMemberNamespace_iff hlinks hlist hnamed hprunes hlastlive hparent
      hhelper.kind).mpr (hlast.seen hlinks hlist)
  refine ⟨b, ?_, ?_, _, hprunes, fun d hd => ⟨fun hw => ?_, fun hw => ?_⟩⟩
  · refine Sweep.fails_run hlist hturns (fails_visit_of_collapse hlastlive hhelper.known ?_
      hsingle hrootlive ?_)
    · exact (hprunes.thins.hangs hlastlive).trans hparent
    · exact (hprunes.thins.hangs hrootlive).trans hroot
  · -- Of the members only the last one is there, and there is one left.
    have hmem : last ∈ b.members tree.root := by
      obtain ⟨-, before, hmembers, -⟩ := hlast
      rw [hprunes.thins.members_eq hrootlive, hmembers, List.mem_filter]
      exact ⟨List.mem_append_cons_self, hlastlive⟩
    unfold isSingleMemberNamespace at hsingle
    rw [Bool.and_eq_true, beq_iff_eq, beq_iff_eq] at hsingle
    obtain ⟨only, honly⟩ := List.length_eq_one_iff.mp hsingle.2
    rw [honly, List.mem_singleton] at hmem
    rw [honly, hmem]
  · exact ((hprunes.live_iff last).mp hlastlive).2 d hd hw
  · -- All that goes has a helper below it that has been looked at.
    obtain ⟨y, ⟨-, hy⟩, hdy⟩ := hd.exists_known hlinks
    exact (Arena.before_of_mem hlinks hlist hy).not_within hlinks (hw.trans hdy)

end Root

/-- What a run leaves of such a namespace. -/
theorem left_of_lastOf {run : Run} (hrun : run.Undisturbed)
    (hlinks : run.tree.arena.WellLinked) (hfits : run.tree.arena.Fits)
    (hlive : run.tree.arena.isLive run.tree.root = true)
    (hroot : run.tree.arena.parent? run.tree.root = none)
    (hnamed : NamespacesNamed run.tree.arena) (hhelper : Helper run.tree last)
    (hlast : LastOf run.tree.arena (Helper run.tree) last run.tree.root) :
    let ran := pass.run run
    ran.1 = .error (.tree (.noParent run.tree.root)) ∧
    ran.2.tree.arena.isLive run.tree.root = true ∧
    ran.2.tree.arena.members run.tree.root = [last] ∧
    ∀ x, run.tree.arena.Within last x → ran.2.tree.arena.get? x = run.tree.arena.get? x := by
  intro ran
  obtain ⟨b, hfails, hmembers, tops, hprunes, hapart⟩ :=
    fails_of_lastOf hlinks hroot hnamed hlive hhelper hlast
  obtain ⟨herror, htree⟩ := hfails run hrun rfl
  have harena : ran.2.tree.arena = b := congrArg SyntaxTree.arena htree
  have hafter : ran.2.tree.arena.Fits := by
    unfold Arena.Fits
    rw [harena, hprunes.thins.size]
    exact hfits
  have hhistory := StandardPass.precedes_run .embeddedTypes hlinks hafter
  refine ⟨herror, hhistory.stays hlive hroot, by rw [harena]; exact hmembers, ?_⟩
  replace hhistory : run.tree.arena.Precedes b := harena ▸ hhistory
  rw [harena]
  exact fun x => hprunes.get?_eq_of_within hlinks hhistory hapart

/-- When a run of the pass that nobody cancels fails over a tree whose root is live
and below nothing. It does exactly if the root is a helper, or a namespace whose
last member is a helper and whose other members go. The error is that there is
nothing above the root, which stays. The tree of a helper is left as it is. Of the
namespace only the last member is left, and with it all that is below it, in slots
that hold what they held. -/
theorem fails_iff_root_goes {run : Run} (hrun : run.Undisturbed)
    (hreachable : run.tree.arena.Reachable) (hfits : run.tree.arena.Fits)
    (hlive : run.tree.arena.isLive run.tree.root = true)
    (hroot : run.tree.arena.parent? run.tree.root = none)
    (hnamed : NamespacesNamed run.tree.arena) :
    let root := run.tree.root
    let before := run.tree.arena
    let ran := pass.run run
    ((∃ error, ran.1 = .error error) ↔ Helper run.tree root ∨
      ∃ last, Helper run.tree last ∧ LastOf before (Helper run.tree) last root) ∧
    (∀ error, ran.1 = .error error →
      error = .tree (.noParent root) ∧ ran.2.tree.arena.isLive root = true) ∧
    (Helper run.tree root → ran.2.tree = run.tree) ∧
    ∀ last, Helper run.tree last → LastOf before (Helper run.tree) last root →
      ran.2.tree.arena.members root = [last] ∧
      ∀ x, before.Within last x → ran.2.tree.arena.isLive x = true ∧
        ran.2.tree.arena.get? x = before.get? x := by
  intro root before ran
  have hlinks := hreachable.wellLinked hfits
  have hkept : ¬ Doomed before (Helper run.tree) root → ran.1 = .ok () := by
    intro hkept
    obtain ⟨b, hturns⟩ := turns_of_kept hlinks hnamed hkept
    obtain ⟨⟨⟩, hok, -⟩ := hturns run hrun rfl
    exact hok
  have hfirst : Helper run.tree root →
      ran.1 = .error (.tree (.noParent root)) ∧ ran.2.tree = run.tree :=
    fun hhelper => fails_of_helper hlinks hroot hhelper run hrun rfl
  have hsecond : ∀ last, Helper run.tree last → LastOf before (Helper run.tree) last root →
      ran.1 = .error (.tree (.noParent root)) ∧ ran.2.tree.arena.isLive root = true ∧
      ran.2.tree.arena.members root = [last] ∧
      ∀ x, before.Within last x → ran.2.tree.arena.get? x = before.get? x :=
    fun _ => left_of_lastOf hrun hlinks hfits hlive hroot hnamed
  have hgoes : ∀ error, ran.1 = .error error → Helper run.tree root ∨
      ∃ last, Helper run.tree last ∧ LastOf before (Helper run.tree) last root := by
    intro error herror
    refine doomed_iff.mp (Classical.byContradiction fun habs => ?_)
    rw [hkept habs] at herror
    cases herror
  refine ⟨⟨fun ⟨error, herror⟩ => hgoes error herror, ?_⟩, fun error herror => ?_,
    fun hhelper => (hfirst hhelper).2, fun last hhelper hlast => ?_⟩
  · rintro (hhelper | ⟨last, hhelper, hlast⟩)
    · exact ⟨_, (hfirst hhelper).1⟩
    · exact ⟨_, (hsecond last hhelper hlast).1⟩
  · rcases hgoes error herror with hhelper | ⟨last, hhelper, hlast⟩
    · obtain ⟨hfailed, htree⟩ := hfirst hhelper
      rw [hfailed] at herror
      rw [htree]
      exact ⟨(Except.error.inj herror).symm, hlive⟩
    · obtain ⟨hfailed, hstays, -⟩ := hsecond last hhelper hlast
      rw [hfailed] at herror
      exact ⟨(Except.error.inj herror).symm, hstays⟩
  · obtain ⟨-, -, hmembers, hslots⟩ := hsecond last hhelper hlast
    refine ⟨hmembers, fun x hx => ⟨?_, hslots x hx⟩⟩
    unfold Arena.isLive
    rw [hslots x hx]
    exact (hx.isLive_eq hlinks).trans hhelper.live

/-- A namespace without a name, in which a namespace of one helper comes before a
helper that holds another one. -/
def detachedSpace : SyntaxTree where
  arena := Arena.build
    [.addRoot (.namespaceDeclaration .none), .addNamespace ⟨0⟩ "A",
      .addTypeDeclaration ⟨1⟩ .classType "B", .addTypeDeclaration ⟨0⟩ .classType "C",
      .addTypeDeclaration ⟨5⟩ .classType "D"]
  root := ⟨0⟩
  annotations :=
    ⟨[], [(⟨3⟩, ⟨KnownNames.embedded, ⟨1⟩⟩), (⟨5⟩, ⟨KnownNames.embedded, ⟨1⟩⟩),
      (⟨7⟩, ⟨KnownNames.embedded, ⟨1⟩⟩)]⟩

/-- The namespace in it goes, and then its last member cannot. -/
theorem fails_detachedSpace :
    let ran := pass.run (.start detachedSpace .fresh .never)
    (∃ error, ran.1 = .error error) ∧ ran.2.tree.arena.isLive ⟨1⟩ = false ∧
      ran.2.tree.arena.members ⟨0⟩ = [⟨5⟩] ∧ ran.2.tree.arena.isLive ⟨7⟩ = true := by
  have hrun : (Run.start detachedSpace .fresh .never).Undisturbed := ⟨rfl, rfl⟩
  obtain ⟨hiff, -, -, hleft⟩ := fails_iff_root_goes hrun (Arena.reachable_build _)
    (by decide) (by decide) (by decide) (by decide)
  have hinner : detachedSpace.arena.Within detachedSpace.root ⟨1⟩ := .child .self (by decide)
  have hfirst : Helper detachedSpace ⟨3⟩ :=
    ⟨by decide, .child hinner (by decide), by decide, by decide⟩
  have hlast : Helper detachedSpace ⟨5⟩ :=
    ⟨by decide, .child .self (by decide), by decide, by decide⟩
  have hlastOf : LastOf detachedSpace.arena (Helper detachedSpace) ⟨5⟩ ⟨0⟩ := by
    have hmembers : detachedSpace.arena.members ⟨0⟩ = [⟨1⟩] ++ [⟨5⟩] := by decide
    have hnested : detachedSpace.arena.members ⟨1⟩ = [] ++ [⟨3⟩] := by decide
    refine ⟨by decide, [⟨1⟩], hmembers, fun m hm => ?_⟩
    rw [List.mem_singleton.mp hm]
    exact .collapse (by decide) hnested hfirst fun m hm => nomatch hm
  obtain ⟨hmembers, hslots⟩ := hleft ⟨5⟩ hlast hlastOf
  have hbelow : detachedSpace.arena.Within ⟨5⟩ ⟨7⟩ := .child .self (by decide)
  exact ⟨hiff.mpr (.inr ⟨_, hlast, hlastOf⟩), by decide +kernel, hmembers,
    (hslots ⟨7⟩ hbelow).1⟩

end Decompiled.EmbeddedTypes
