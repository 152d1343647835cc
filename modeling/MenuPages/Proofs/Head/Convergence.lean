import MenuPages.Proofs.Head.Runs
import MenuPages.Proofs.Head.Scanning

/-!
# An injector shows what it was given last

An injector remembers a slug, a menu and some handles. **The law** (`Session.run_sync_shows`):
whatever went before on the head, after `sync` it has the elements of the content in the head,
marked for the menu, and after `clear` it has none.

What carries it is `Account.Shows`: an injector that shows something has in the head all elements
of one of the contents it was given, and remembers the slug of this content. So if it finds the
slug of a content that it is given, and no other of its contents has this slug, it shows that
content already.
-/

namespace MenuPages

/-! ## What an injector shows -/

namespace Session

/-- The contents that the injector under a name was given, after a command more. -/
def contentsAfter (v : Viewer) (slot : Text) (contents : List Text) :
    Command → List Text
  | .sync other _ content => if other = slot then contents ++ [content] else contents
  | .display other selected =>
    if other = slot then
      contents ++ ((Command.display other selected).content? v).toList
    else contents
  | .unmount other => if other = slot then [] else contents
  | _ => contents

/-- The contents that the injector under a name was given, since it was made. -/
def contents (v : Viewer) (slot : Text) (commands : List Command) : List Text :=
  commands.foldl (contentsAfter v slot) []

theorem contentsAfter_of_ne (v : Viewer) {slot : Text} {command : Command}
    (howner : command.owner? ≠ some (.injector slot)) (contents : List Text) :
    contentsAfter v slot contents command = contents := by
  cases command with
  | append | remove | inject | drop | clear | current | tagged | elements => rfl
  | sync other | display other | unmount other =>
    rw [contentsAfter, if_neg]
    rintro rfl
    exact howner rfl

end Session

/-- What an injector has that was given some contents: nothing, or all elements of one of them. -/
inductive Account.Shows (contents : List Text) : Account → Prop
  | nothing : Shows contents {}
  | content (menuId content : Text) (hmem : content ∈ contents)
      (hblank : Text.allBlank content = false) :
      Shows contents (anew (clones menuId content) (some (Slug.ofText content, menuId)))

namespace Account.Shows

variable {contents more : List Text} {a : Account}

theorem mono (h : a.Shows contents) (hsub : ∀ c ∈ contents, c ∈ more) : a.Shows more := by
  cases h with
  | nothing => exact .nothing
  | content menuId content hmem hblank => exact .content menuId content (hsub content hmem) hblank

theorem sync (h : a.Shows contents) (menuId content : Text) :
    (a.sync menuId content).Shows (contents ++ [content]) := by
  rw [Account.sync]
  split
  · exact h.mono fun c hc => List.mem_append_left _ hc
  · split
    · exact .nothing
    · next hblank =>
      exact .content menuId content (List.mem_append_right _ (List.mem_singleton.2 rfl))
        (by simpa using hblank)

/-- An injector that finds the slug of a content shows this content, if no other content that it was
given has this slug. -/
theorem sync_eq (h : a.Shows contents) (menuId content : Text)
    (hslug : ∀ c ∈ contents, Slug.ofText c = Slug.ofText content → c = content) :
    a.sync menuId content =
      if Text.allBlank content then {}
      else anew (clones menuId content) (some (Slug.ofText content, menuId)) := by
  rw [Account.sync]
  split
  next hcurrent =>
    cases h with
    | nothing => cases hcurrent
    | content menuId' content' hmem hblank =>
      obtain ⟨hsame, rfl⟩ := Prod.mk.inj (Option.some.inj hcurrent)
      cases hslug content' hmem hsame
      rw [if_neg (by simp [hblank])]
  next => rfl

/-- Whatever a command does, an injector that showed one of its contents does so again. -/
theorem step (h : a.Shows contents) (v : Viewer) (slot : Text) {command : Session.Command}
    (howner : command.owner? = some (.injector slot)) :
    (a.step v command).Shows (Session.contentsAfter v slot contents command) := by
  cases command with
  | append | remove | inject | drop | tagged | elements => cases howner
  | sync other menuId content =>
    cases howner
    rw [Session.contentsAfter, if_pos rfl]
    exact h.sync menuId content
  | clear other => exact .nothing
  | unmount other => exact .nothing
  | current other => exact h
  | display other selected =>
    cases howner
    rw [Session.contentsAfter, if_pos rfl, Account.step, Session.Command.content?]
    cases (v.page selected).1 with
    | custom menu => exact h.sync menu.menuId menu.head
    | empty | selector | builtin => exact .nothing

/-- After a run, an injector shows one of the contents that it was given. -/
theorem after (v : Viewer) (slot : Text) (commands : List Session.Command) :
    (Account.after v (.injector slot) commands).Shows (Session.contents v slot commands) := by
  have hfold (commands : List Session.Command) (contents : List Text) (a : Account)
      (h : a.Shows contents) :
      ((commands.filter fun c => c.owner? = some (.injector slot)).foldl (Account.step v) a).Shows
        (commands.foldl (Session.contentsAfter v slot) contents) := by
    induction commands generalizing a contents with
    | nil => exact h
    | cons command commands ih =>
      by_cases howner : command.owner? = some (.injector slot)
      · rw [List.filter_cons_of_pos (by simpa using howner)]
        exact ih _ _ (h.step v slot howner)
      · rw [List.filter_cons_of_neg (by simpa using howner), List.foldl_cons,
          Session.contentsAfter_of_ne v howner]
        exact ih _ _ h
  exact hfold commands [] {} .nothing

end Account.Shows

namespace Session

/-- **An injector shows what it was given last.** Whatever went before on the head, right after
`sync` an injector has in the head all elements of the content, in order, each marked once and last
for the menu, and the menu is the current one unless the content is blank; right after `clear` it
has nothing. The scan must not give up on a content, and no other content that the injector was
given may have the slug of this one. -/
theorem run_sync_shows (v : Viewer) (before : List Command) (slot : Text)
    (hreadable : ∀ command ∈ before, command.Readable v) :
    (∀ menuId content es, Head.elements content = .ok es →
      (∀ c ∈ contents v slot before, Slug.ofText c = Slug.ofText content → c = content) →
      ∃ seen s, run v {} (before ++ [.sync slot menuId content]) = .ok (seen, s) ∧
        s.EachOwned (handed seen) ∧
        s.elementsOf (handed seen) (.injector slot) = es.map (fun e => { e with
          attributes := e.attributes.filter (fun a => a.name != menuMarker) ++
            [⟨menuMarker, menuId⟩] }) ∧
        (s.injector slot).currentMenu? = if Text.allBlank content then none else some menuId) ∧
    (∃ seen s, run v {} (before ++ [.clear slot]) = .ok (seen, s) ∧
      s.EachOwned (handed seen) ∧ s.elementsOf (handed seen) (.injector slot) = [] ∧
      (s.injector slot).currentMenu? = none) := by
  have hsnoc (last : Command) (hlast : last.Readable v) :
      ∀ command ∈ before ++ [last], command.Readable v := by
    intro command hmem
    rcases List.mem_append.1 hmem with hbefore | hin
    · exact hreadable command hbefore
    · rw [List.mem_singleton.1 hin]
      exact hlast
  constructor
  · intro menuId content es hes hslug
    have hlast : (Command.sync slot menuId content).Readable v := by
      rintro _ ⟨⟩
      exact ⟨es, hes⟩
    obtain ⟨seen, s, hrun, hsound, haccount⟩ := exists_run_after v (hsnoc _ hlast)
    have hshown : s.account (handed seen) (.injector slot) =
        if Text.allBlank content then {}
        else .anew (Account.clones menuId content) (some (Slug.ofText content, menuId)) := by
      rw [haccount, Account.after_append_single rfl]
      exact (Account.Shows.after v slot before).sync_eq menuId content hslug
    refine ⟨seen, s, hrun, hsound.eachOwned, ?_, ?_⟩
    · rw [elementsOf_eq, hshown]
      cases hblank : Text.allBlank content with
      | true =>
        cases hes.symm.trans (Head.elements_of_allBlank hblank)
        rfl
      | false =>
        rw [if_neg (by simp), Account.map_snd_nodes_anew, Account.clones_eq hes]
        exact List.map_congr_left fun e _ => e.marked_eq menuId
    · rw [s.currentMenu?_eq (handed seen), hshown]
      cases Text.allBlank content <;> rfl
  · have hlast : (Command.clear slot).Readable v := by
      rintro _ ⟨⟩
    obtain ⟨seen, s, hrun, hsound, haccount⟩ := exists_run_after v (hsnoc _ hlast)
    have hnothing : s.account (handed seen) (.injector slot) = {} := by
      rw [haccount, Account.after_append_single rfl]
      rfl
    refine ⟨seen, s, hrun, hsound.eachOwned, ?_, ?_⟩
    · rw [elementsOf_eq, hnothing]
      rfl
    · rw [s.currentMenu?_eq (handed seen), hnothing]
      rfl

/-- A head with an element of its own, on which an injection and an injector are at work. The
injector goes over to another menu, and what the content had marked itself is marked anew. -/
theorem run_sync_shows_links :
    let v : Viewer := ⟨"Sol".toList, [], .spanish⟩
    let site : HeadElement := ⟨.link, [⟨"href".toList, "/site.css".toList⟩], []⟩
    let before : List Command := [.append "h".toList site,
      .sync "j".toList "m1".toList "<link a>".toList,
      .inject "i".toList "m1".toList "<link b>".toList]
    let last : Command := .sync "j".toList "m2".toList "<link data-menu-custom=m1 b>".toList
    ∃ seen s, run v {} (before ++ [last]) = .ok (seen, s) ∧
      s.elementsOf (handed seen) (.injector "j".toList) =
        [⟨.link, [⟨"b".toList, []⟩, ⟨"data-menu-custom".toList, "m2".toList⟩], []⟩] ∧
      (s.injector "j".toList).currentMenu? = some "m2".toList := by
  intro v site before last
  have hreadable : ∀ command ∈ before, command.Readable v := by
    have ha : Head.elements "<link a>".toList = .ok [⟨.link, [⟨"a".toList, []⟩], []⟩] := by
      decide +kernel
    have hb : Head.elements "<link b>".toList = .ok [⟨.link, [⟨"b".toList, []⟩], []⟩] := by
      decide +kernel
    intro command hmem
    rcases List.mem_cons.1 hmem with rfl | hmem
    · rintro _ ⟨⟩
    rcases List.mem_cons.1 hmem with rfl | hmem
    · rintro _ ⟨⟩
      exact ⟨_, ha⟩
    · rw [List.mem_singleton.1 hmem]
      rintro _ ⟨⟩
      exact ⟨_, hb⟩
  have hcontents : contents v "j".toList before = ["<link a>".toList] := rfl
  obtain ⟨hsync, -⟩ := run_sync_shows v before "j".toList hreadable
  obtain ⟨seen, s, hrun, -, helements, hcurrent⟩ :=
    hsync "m2".toList "<link data-menu-custom=m1 b>".toList
      [⟨.link, [⟨"data-menu-custom".toList, "m1".toList⟩, ⟨"b".toList, []⟩], []⟩]
      (by decide +kernel) (by
        rw [hcontents]
        intro c hc hslug
        rw [List.mem_singleton.1 hc] at hslug
        exact absurd hslug (by decide +kernel))
  exact ⟨seen, s, hrun, helements, hcurrent⟩

end Session

end MenuPages
