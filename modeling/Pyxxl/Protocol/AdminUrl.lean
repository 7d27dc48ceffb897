import Mathlib.Data.List.Forall2
import Pyxxl.Lib.Lines
import Pyxxl.Lib.Url
import Pyxxl.Model

/-!
# Pyxxl.Protocol.AdminUrl

The addresses of the admin, from the text of the configuration to the URLs of the requests:
`ExecutorConfig` cuts the text at its commas and normalises each address, the list goes to `XXL`,
which normalises it once more, and `_post_once` puts the name of an endpoint behind an address.

* `urlparse` and `geturl` are those of Python 3.11.10 (`Url`); `netlocOk`: the checks `urlparse`
  makes of a network location.
* `Pipeline`: what is to hold of a text that is accepted; `admin_pipeline`: when it does.
* the endpoint goes into the last part of an address (`Url.geturl_append`), which is the path only
  if the address has no parameters, query or fragment.
-/

namespace Pyxxl

open Url ParseResult

inductive Endpoint where
  | registry
  | registryRemove
  | callback
  deriving DecidableEq, Repr

def Endpoint.name : Endpoint → PyStr
  | .registry => py "registry"
  | .registryRemove => py "registryRemove"
  | .callback => py "callback"

inductive AdminUrlError where
  /-- `urlparse` raised. -/
  | urlparse
  /-- "admin_url must like http://localhost:8080/xxl-job-admin/api/" -/
  | mustLike
  deriving DecidableEq, Repr

/-- `str.isspace`. -/
def isSpace (c : Nat) : Bool :=
  (9 ≤ c && c ≤ 13) || (28 ≤ c && c ≤ 32) || c == 133 || c == 160 || c == 5760 ||
    (8192 ≤ c && c ≤ 8202) || c == 8232 || c == 8233 || c == 8239 || c == 8287 || c == 12288

/-- `str.strip`. -/
def strip (s : PyStr) : PyStr := Lines.trim isSpace s

def api : PyStr := py "/api"

/-- The normalised path, of both normalisers. -/
def apiPath (path : PyStr) : PyStr :=
  let path := path.rdropWhile (· == 47)
  if api <:+ path then path ++ [47]
  else if path = [] then api ++ [47]
  else path ++ api ++ [47]

/-- Both normalisers, which only differ in their place. -/
def normalizeUrl (netlocOk : PyStr → Bool) (raw : PyStr) : Except AdminUrlError PyStr :=
  match urlparse netlocOk (strip raw) with
  | none => .error .urlparse
  | some u =>
    if py "http" <+: u.scheme then .ok { u with path := apiPath u.path }.geturl
    else .error .mustLike

namespace ExecutorConfig

def splitAdminBaseurls (rawValue : PyStr) : List PyStr :=
  ((rawValue.splitOn 44).map strip).filter (· ≠ [])

def normalizeAdminBaseurl : (PyStr → Bool) → PyStr → Except AdminUrlError PyStr := normalizeUrl

/-- `_validate_admin_baseurl`, with the new `xxl_admin_baseurl`. -/
def validateAdminBaseurl (netlocOk : PyStr → Bool) (xxlAdminBaseurl : PyStr) :
    Except AdminUrlError PyStr :=
  match (splitAdminBaseurls xxlAdminBaseurl).mapM (normalizeAdminBaseurl netlocOk) with
  | .error e => .error e
  | .ok [] => .error .mustLike
  | .ok (url :: urls) => .ok ([44].intercalate (url :: urls))

def adminBaseurls (xxlAdminBaseurl : PyStr) : List PyStr := splitAdminBaseurls xxlAdminBaseurl

end ExecutorConfig

namespace XXL

def normalizeAdminUrl : (PyStr → Bool) → PyStr → Except AdminUrlError PyStr := normalizeUrl

/-- `_normalize_admin_urls` of a list. -/
def normalizeAdminUrls (netlocOk : PyStr → Bool) (rawUrls : List PyStr) :
    Except AdminUrlError (List PyStr) :=
  match (rawUrls.filter (strip · ≠ [])).mapM (normalizeAdminUrl netlocOk) with
  | .error e => .error e
  | .ok [] => .error .mustLike
  | .ok (url :: urls) => .ok (url :: urls)

/-- `_normalize_admin_urls` of a string. -/
def normalizeAdminUrlText (netlocOk : PyStr → Bool) (adminUrl : PyStr) :
    Except AdminUrlError (List PyStr) :=
  normalizeAdminUrls netlocOk (adminUrl.splitOn 44)

/-- The `request_url` of `_post_once`, for a session of its own. -/
def requestUrl (adminUrl : PyStr) (path : PyStr) : PyStr := adminUrl ++ path

end XXL

/-- The user's path without trailing slashes and without a final `/api`. -/
def basePath (path : PyStr) : PyStr :=
  let path := path.rdropWhile (· == 47)
  if api <:+ path then path.take (path.length - api.length) else path

/-- The requests go where the user's address says. -/
def Addressed (netlocOk : PyStr → Bool) (part url : PyStr) : Prop :=
  ∀ e : Endpoint, ∃ user req, urlparse netlocOk part = some user ∧
    urlparse netlocOk (XXL.requestUrl url e.name) = some req ∧ req.scheme = user.scheme ∧
    req.netloc = user.netloc ∧ req.path = basePath user.path ++ api ++ [47] ++ e.name

structure Pipeline (netlocOk : PyStr → Bool) (raw config : PyStr) : Prop where
  again : ExecutorConfig.validateAdminBaseurl netlocOk config = .ok config
  fromList : XXL.normalizeAdminUrls netlocOk (ExecutorConfig.adminBaseurls config) =
    .ok (ExecutorConfig.adminBaseurls config)
  fromText : XXL.normalizeAdminUrlText netlocOk config = .ok (ExecutorConfig.adminBaseurls config)
  /-- One entry for each part, in the same order. -/
  requests : List.Forall₂ (Addressed netlocOk) (ExecutorConfig.splitAdminBaseurls raw)
    (ExecutorConfig.adminBaseurls config)

/-- The path is the last part of the address, and has its slash. -/
def PathLast (u : ParseResult) : Prop :=
  u.params = [] ∧ u.query = [] ∧ u.fragment = [] ∧
    (usesNetloc u.scheme = true → u.path = [] ∨ u.path.head? = some 47)

instance (u : ParseResult) : Decidable (PathLast u) := inferInstanceAs (Decidable (_ ∧ _))

variable {netlocOk : PyStr → Bool} {raw part url config p : PyStr} {u : ParseResult}

/-! ## Lists -/

section Lists

variable {α β : Type} {R S : α → β → Prop} {P : β → Prop} {xs : List α} {ys : List β}

theorem mapM_eq_ok {ε : Type} {f : α → Except ε β} :
    xs.mapM f = .ok ys ↔ List.Forall₂ (fun x y => f x = .ok y) xs ys := by
  induction xs generalizing ys with
  | nil =>
    rw [List.forall₂_nil_left_iff]
    exact ⟨fun h => (Except.ok.inj h).symm, fun h => congrArg Except.ok h.symm⟩
  | cons x xs ih =>
    rw [List.mapM_cons, List.forall₂_cons_left_iff]
    constructor
    · intro h
      cases hx : f x with
      | error e =>
        rw [hx] at h
        cases h
      | ok y =>
        rw [hx] at h
        change (xs.mapM f >>= fun zs => pure (y :: zs)) = .ok ys at h
        cases hxs : xs.mapM f with
        | error e =>
          rw [hxs] at h
          cases h
        | ok zs =>
          rw [hxs] at h
          cases h
          exact ⟨y, zs, rfl, ih.mp hxs, rfl⟩
    · rintro ⟨y, zs, hy, hzs, rfl⟩
      rw [hy]
      show (xs.mapM f >>= fun zs => pure (y :: zs)) = _
      rw [ih.mpr hzs]
      rfl

theorem forall₂_of_mem (h : List.Forall₂ R xs ys) (hi : ∀ x ∈ xs, ∀ y, R x y → S x y) :
    List.Forall₂ S xs ys := by
  have hmem : List.Forall₂ (fun x y => x ∈ xs ∧ R x y) xs ys :=
    (List.forall₂_and_left xs ys).mpr ⟨fun x hx => hx, h⟩
  exact hmem.imp fun x y hxy => hi x hxy.1 y hxy.2

theorem forall_right (h : List.Forall₂ R xs ys) (hi : ∀ x ∈ xs, ∀ y, R x y → P y) :
    ∀ y ∈ ys, P y := by
  have hflip : List.Forall₂ (fun y (_ : α) => P y ∧ True) ys xs :=
    ((forall₂_of_mem h hi).imp fun x y hy => ⟨hy, trivial⟩).flip
  exact ((List.forall₂_and_left ys xs).mp hflip).1

theorem forall₂_both (h : List.Forall₂ R xs ys) (h' : List.Forall₂ S xs ys) :
    ∀ x ∈ xs, ∃ y, R x y ∧ S x y := by
  induction h with
  | nil => exact nofun
  | @cons x y _ _ hr _ ih =>
    cases h' with
    | cons hs htail =>
      intro z hz
      rcases List.mem_cons.mp hz with rfl | hz
      · exact ⟨y, hr, hs⟩
      · exact ih htail z hz

end Lists

/-! ## Paths -/

theorem apiPath_eq (p : PyStr) : apiPath p = basePath p ++ api ++ [47] := by
  unfold apiPath basePath
  dsimp only
  split
  · rename_i h
    obtain ⟨t, ht⟩ := h
    rw [← ht, List.length_append, Nat.add_sub_cancel, List.take_left]
  · split
    · rename_i h
      rw [h]
      rfl
    · rfl

theorem basePath_sublist (p : PyStr) : (basePath p).Sublist p := by
  unfold basePath
  dsimp only
  split
  · exact (List.take_sublist _ _).trans (List.rdropWhile_prefix _ _).sublist
  · exact (List.rdropWhile_prefix _ _).sublist

theorem rdropWhile_api (q : PyStr) :
    (q ++ api ++ [47]).rdropWhile (· == 47) = q ++ api := by
  have hapi : q ++ api = q ++ [47, 97, 112] ++ [105] := by
    rw [List.append_assoc]
    rfl
  rw [List.rdropWhile_concat_pos _ _ _ (by decide), hapi,
    List.rdropWhile_concat_neg _ _ _ (by decide)]

theorem apiPath_apiPath (p : PyStr) : apiPath (apiPath p) = apiPath p := by
  rw [apiPath_eq p, apiPath, rdropWhile_api, if_pos (List.suffix_append _ _)]

theorem apiPath_ne_nil (p : PyStr) : apiPath p ≠ [] := by
  rw [apiPath_eq]
  exact List.append_ne_nil_of_right_ne_nil _ nofun

theorem getLast_apiPath (p : PyStr) : (apiPath p).getLast? = some 47 := by
  rw [apiPath_eq]
  exact List.getLast?_concat ..

theorem forall_apiPath {P : Nat → Prop} (hp : ∀ c ∈ p, P c) (ha : ∀ c ∈ api ++ [47], P c) :
    ∀ c ∈ apiPath p, P c := by
  rw [apiPath_eq, List.append_assoc, List.forall_mem_append]
  exact ⟨fun c hc => hp c ((basePath_sublist p).subset hc), ha⟩

/-- The first character of the path stays, if it is no slash. -/
theorem head_apiPath (p : PyStr) : (apiPath p).head? = some 47 ↔ p = [] ∨ p.head? = some 47 := by
  by_cases hq : p.rdropWhile (· == 47) = []
  · have hall := List.rdropWhile_eq_nil_iff.mp hq
    have hapi : (apiPath p).head? = some 47 := by
      rw [apiPath, hq]
      rfl
    refine iff_of_true hapi ?_
    cases p with
    | nil => exact .inl rfl
    | cons c t => exact .inr (congrArg some (eq_of_beq (hall c (List.mem_cons_self ..))))
  · have hhead : (apiPath p).head? = p.head? := by
      obtain ⟨t, ht⟩ := List.rdropWhile_prefix (· == 47) p
      have hp : p.head? = (p.rdropWhile (· == 47)).head? := by
        conv_lhs => rw [← ht]
        exact List.head?_append_of_ne_nil _ hq
      rw [hp, apiPath]
      split
      · exact List.head?_append_of_ne_nil _ hq
      · rw [List.append_assoc]
        exact List.head?_append_of_ne_nil _ hq
    have hne : p ≠ [] := by
      rintro rfl
      exact hq rfl
    rw [hhead]
    exact ⟨.inr, fun h => h.resolve_left hne⟩

/-! ## One address -/

/-- What the text of a normalised address is read as. -/
def target (u : ParseResult) : ParseResult :=
  { u with path := if u.netloc ≠ [] ∨ usesNetloc u.scheme = true then rooted (apiPath u.path)
                   else apiPath u.path }

/-- The texts that the normalisers make. -/
def Normalized (netlocOk : PyStr → Bool) (part url : PyStr) : Prop :=
  ∃ u, urlparse netlocOk part = some u ∧ py "http" <+: u.scheme ∧ url = (target u).geturl

theorem http_ne_nil {s : PyStr} (h : py "http" <+: s) : s ≠ [] := by
  rintro rfl
  exact absurd (List.eq_nil_of_prefix_nil h) (by decide)

theorem geturl_target (hs : py "http" <+: u.scheme) :
    (target u).geturl = { u with path := apiPath u.path }.geturl := by
  unfold target
  split
  · rename_i h
    exact geturl_rooted (r := { u with path := apiPath u.path }) (apiPath_ne_nil _) h
      (http_ne_nil hs)
  · rfl

theorem normalizeUrl_ok : normalizeUrl netlocOk raw = .ok url ↔
    Normalized netlocOk (strip raw) url := by
  unfold normalizeUrl Normalized
  cases urlparse netlocOk (strip raw) with
  | none => exact ⟨nofun, fun ⟨_, h, _⟩ => nomatch h⟩
  | some u =>
    by_cases hs : py "http" <+: u.scheme
    · dsimp only
      rw [if_pos hs]
      constructor
      · intro h
        cases h
        exact ⟨u, rfl, hs, (geturl_target hs).symm⟩
      · rintro ⟨u', hu, hs', rfl⟩
        cases hu
        exact congrArg Except.ok (geturl_target hs).symm
    · dsimp only
      rw [if_neg hs]
      refine ⟨nofun, ?_⟩
      rintro ⟨u', hu, hs', -⟩
      cases hu
      exact absurd hs' hs

theorem target_path (u : ParseResult) : (target u).path = apiPath u.path ∨
    (target u).path = rooted (apiPath u.path) := by
  unfold target
  dsimp only
  split
  · exact .inr rfl
  · exact .inl rfl

theorem getLast_target (u : ParseResult) : (target u).path.getLast? = some 47 := by
  rcases target_path u with h | h
  · rw [h]
    exact getLast_apiPath _
  · rw [h, getLast_rooted (apiPath_ne_nil _)]
    exact getLast_apiPath _

theorem forall_target {P : Nat → Prop} (hp : ∀ c ∈ u.path, P c) (ha : ∀ c ∈ api ++ [47], P c) :
    ∀ c ∈ (target u).path, P c := by
  have hapi := forall_apiPath hp ha
  rcases target_path u with h | h
  · rw [h]
    exact hapi
  · rw [h]
    exact forall_rooted (ha 47 (by decide)) hapi

theorem normal_target (hu : urlparse netlocOk part = some u) (hs : py "http" <+: u.scheme) :
    Normal (target u) := by
  have hp := urlparse_parsed hu
  have hlast := getLast_target u
  have hclean : ∀ {t : Text}, (∀ c ∈ t, c ∈ clean part) → ∀ c ∈ t, isUnsafe c = false := by
    intro t ht c hc
    have := (List.mem_filter.mp (ht c hc)).2
    rwa [Bool.not_eq_true'] at this
  have hmem := hclean hp.mem
  simp only [List.forall_mem_append] at hmem
  exact {
    scheme := hp.scheme.resolve_left (http_ne_nil hs)
    netloc := hp.netloc
    path := forall_target hp.path (by decide)
    segment := fun _ => by
      obtain ⟨q, hq⟩ := List.getLast?_eq_some_iff.mp hlast
      rw [hq, List.rtakeWhile_concat_neg _ _ _ (by decide)]
      exact List.not_mem_nil
    params := hp.params
    noParams := hp.noParams
    rooted := fun h => by
      have hfix : (target u).path = rooted (apiPath u.path) := if_pos h
      have hne : rooted (apiPath u.path) ≠ [] := fun hnil => by
        rw [hfix, hnil] at hlast
        cases hlast
      rw [hier, hfix, rooted_append hne, rooted_rooted]
    query := hp.query
    safe := by
      simp only [List.forall_mem_append]
      exact ⟨⟨⟨⟨hmem.1.1.1.1, forall_target hmem.1.1.1.2 (by decide)⟩, hmem.1.1.2⟩, hmem.1.2⟩,
        hmem.2⟩ }

theorem target_ne_nil (u : ParseResult) : (target u).path ≠ [] := fun h => by
  have hlast := getLast_target u
  rw [h] at hlast
  cases hlast

theorem isAlpha_name (e : Endpoint) : ∀ c ∈ e.name, isAlpha c = true := by
  cases e with
  | registry => decide
  | registryRemove => decide
  | callback => decide

theorem urlparse_request (hu : urlparse netlocOk part = some u) (hs : py "http" <+: u.scheme)
    (e : Endpoint) :
    urlparse netlocOk ((target u).geturl ++ e.name) = some ((target u).append e.name) := by
  have hhead : ∀ c ∈ e.name.head?, c ≠ 47 := by
    cases e with
    | registry => decide
    | registryRemove => decide
    | callback => decide
  rw [← geturl_append (target_ne_nil u) hhead]
  refine urlparse_geturl ((normal_target hu hs).append (isAlpha_name e) (getLast_target u)) ?_
  rw [(append_scheme _ _).2]
  exact (urlparse_parsed hu).ok

/-- A path with its slash is left as it is. -/
theorem target_path_eq (hu : urlparse netlocOk part = some u) :
    (target u).path = apiPath u.path ↔
      (usesNetloc u.scheme = true → u.path = [] ∨ u.path.head? = some 47) := by
  by_cases h : u.netloc ≠ [] ∨ usesNetloc u.scheme = true
  · have hfix : (target u).path = rooted (apiPath u.path) := if_pos h
    rw [hfix]
    constructor
    · intro heq _
      obtain ⟨c, t, hc⟩ := List.exists_cons_of_ne_nil (apiPath_ne_nil u.path)
      have hhead := rooted_head heq c (by rw [hc]; rfl)
      rw [← head_apiPath, hc, hhead]
      rfl
    · intro hslash
      refine rooted_of_head (.inr ((head_apiPath _).mpr ?_))
      exact h.elim (urlparse_parsed hu).rooted hslash
  · have hfix : (target u).path = apiPath u.path := if_neg h
    rw [not_or] at h
    exact iff_of_true hfix fun hn => absurd hn h.2

theorem length_target (u : ParseResult) :
    (target u).path.length ≤ (apiPath u.path).length + 1 := by
  rcases target_path u with h | h
  · rw [h]
    exact Nat.le_succ _
  · rw [h, rooted]
    split
    · exact Nat.le_refl _
    · exact Nat.le_succ _

theorem addressed_iff (hu : urlparse netlocOk part = some u) (hs : py "http" <+: u.scheme) :
    Addressed netlocOk part (target u).geturl ↔ PathLast u := by
  constructor
  · intro h
    obtain ⟨user, req, huser, hreq, -, -, hpath⟩ := h .callback
    rw [hu] at huser
    cases huser
    rw [XXL.requestUrl, urlparse_request hu hs] at hreq
    cases hreq
    rw [append_path, ← apiPath_eq] at hpath
    split at hpath
    · rename_i hlast
      exact ⟨hlast.1, hlast.2.1, hlast.2.2,
        (target_path_eq hu).mp (List.append_cancel_right hpath)⟩
    · -- the endpoint is not in the path
      have hlen := congrArg List.length hpath
      have hle := length_target u
      have hname : (Endpoint.callback.name).length = 8 := by decide
      rw [List.length_append, hname] at hlen
      omega
  · rintro ⟨hp, hq, hf, hslash⟩ e
    refine ⟨u, _, hu, urlparse_request hu hs e, (append_scheme _ _).1, (append_scheme _ _).2, ?_⟩
    rw [append_path, if_pos ⟨hp, hq, hf⟩, (target_path_eq hu).mpr hslash, apiPath_eq]

/-! ## The list of addresses -/

theorem Normalized.head (h : Normalized netlocOk part url) :
    url ≠ [] ∧ ∀ c ∈ url.head?, isSpace c = false := by
  obtain ⟨u, hu, hs, rfl⟩ := h
  have hhead := head_geturl (normal_target hu hs).scheme
  refine ⟨fun hnil => ?_, fun c hc => ?_⟩
  · rw [hnil] at hhead
    cases hhead
  · rw [hc, Option.any_some] at hhead
    simp only [isAlpha, Bool.or_eq_true, Bool.and_eq_true, decide_eq_true_eq] at hhead
    simp only [isSpace, Bool.or_eq_false_iff, Bool.and_eq_false_iff, decide_eq_false_iff_not,
      beq_eq_false_iff_ne]
    omega

theorem Normalized.no_comma (h : Normalized netlocOk part url) (hc : 44 ∉ part) : 44 ∉ url := by
  obtain ⟨u, hu, hs, rfl⟩ := h
  have hp := urlparse_parsed hu
  have hclean : 44 ∉ clean part := fun h => hc (mem_of_mem_clean h)
  have hmem : ∀ c ∈ u.netloc ++ u.path ++ u.params ++ u.query ++ u.fragment, c ≠ 44 :=
    fun c hm he => hclean (he ▸ hp.mem c hm)
  simp only [List.forall_mem_append] at hmem
  obtain ⟨⟨⟨⟨hnetloc, hpath⟩, hparams⟩, hquery⟩, hfragment⟩ := hmem
  have htarget : ∀ c ∈ (target u).path, c ≠ 44 := forall_target hpath (by decide)
  refine fun hm => forall_geturl (P := (· ≠ 44)) (by decide) (fun c hm => ?_) ?_ 44 hm rfl
  · obtain ⟨d, hd, rfl⟩ := hp.lower c hm
    intro he
    unfold lowerChar at he
    split at he
    · omega
    · exact hclean (he ▸ hd)
  · simp only [List.forall_mem_append]
    exact ⟨⟨⟨⟨hnetloc, htarget⟩, hparams⟩, hquery⟩, hfragment⟩

/-- An address whose path is the last part is normalised already. -/
theorem Normalized.again (h : Normalized netlocOk part url)
    (hp : ∀ u, urlparse netlocOk part = some u → PathLast u) :
    strip url = url ∧ Normalized netlocOk url url := by
  have hhead := h.head.2
  obtain ⟨u, hu, hs, rfl⟩ := h
  obtain ⟨hps, hq, hf, hslash⟩ := hp u hu
  have hpath := (target_path_eq hu).mpr hslash
  constructor
  · refine Lines.trim_eq_self hhead fun c hc => ?_
    rw [getLast_geturl (target_ne_nil u) hps hq hf, getLast_target] at hc
    cases hc
    rfl
  · have hparse : urlparse netlocOk (target u).geturl = some (target u) :=
      urlparse_geturl (normal_target hu hs) (urlparse_parsed hu).ok
    refine ⟨target u, hparse, hs, congrArg geturl ?_⟩
    have hagain : (target (target u)).path = (target u).path := by
      show (if u.netloc ≠ [] ∨ usesNetloc u.scheme = true then rooted (apiPath (target u).path)
        else apiPath (target u).path) = (target u).path
      rw [hpath, apiPath_apiPath]
      exact hpath
    exact congrArg (fun p => { u with path := p }) hagain.symm

open ExecutorConfig

theorem mem_split (h : part ∈ splitAdminBaseurls raw) : strip part = part ∧ 44 ∉ part := by
  obtain ⟨p, hp, rfl⟩ := List.mem_map.mp (List.mem_filter.mp h).1
  exact ⟨Lines.trim_trim, fun hc => Lines.not_mem_of_mem_splitOn hp (Lines.mem_of_mem_trim hc)⟩

theorem split_normalized {urls : List PyStr} :
    (splitAdminBaseurls raw).mapM (normalizeAdminBaseurl netlocOk) = .ok urls ↔
      List.Forall₂ (Normalized netlocOk) (splitAdminBaseurls raw) urls := by
  have hiff : ∀ part ∈ splitAdminBaseurls raw, ∀ url,
      normalizeAdminBaseurl netlocOk part = .ok url ↔ Normalized netlocOk part url := by
    intro part hpart url
    rw [normalizeAdminBaseurl, normalizeUrl_ok, (mem_split hpart).1]
  rw [mapM_eq_ok]
  constructor
  · intro h
    exact forall₂_of_mem h fun part hpart url => (hiff part hpart url).mp
  · intro h
    exact forall₂_of_mem h fun part hpart url => (hiff part hpart url).mpr

theorem validate_ok : validateAdminBaseurl netlocOk raw = .ok config ↔ ∃ urls, urls ≠ [] ∧
    List.Forall₂ (Normalized netlocOk) (splitAdminBaseurls raw) urls ∧
      config = [44].intercalate urls := by
  simp only [← split_normalized]
  unfold validateAdminBaseurl
  cases (splitAdminBaseurls raw).mapM (normalizeAdminBaseurl netlocOk) with
  | error e => exact ⟨nofun, fun ⟨_, _, h, _⟩ => nomatch h⟩
  | ok urls =>
    cases urls with
    | nil =>
      refine ⟨nofun, ?_⟩
      rintro ⟨urls, hne, h, -⟩
      exact absurd (Except.ok.inj h).symm hne
    | cons url urls =>
      constructor
      · intro h
        exact ⟨_, List.cons_ne_nil _ _, rfl, (Except.ok.inj h).symm⟩
      · rintro ⟨urls', -, h, rfl⟩
        cases h
        rfl

theorem normalizeAdminUrls_ok {raws urls : List PyStr} :
    XXL.normalizeAdminUrls netlocOk raws = .ok urls ↔ urls ≠ [] ∧ List.Forall₂
      (fun raw url => Normalized netlocOk (strip raw) url) (raws.filter (strip · ≠ [])) urls := by
  simp only [← normalizeUrl_ok, ← mapM_eq_ok]
  unfold XXL.normalizeAdminUrls XXL.normalizeAdminUrl
  cases (raws.filter (strip · ≠ [])).mapM (normalizeUrl netlocOk) with
  | error e => exact ⟨nofun, fun ⟨_, h⟩ => nomatch h⟩
  | ok urls' =>
    cases urls' with
    | nil =>
      refine ⟨nofun, ?_⟩
      rintro ⟨hne, h⟩
      exact absurd (Except.ok.inj h).symm hne
    | cons url urls' =>
      refine ⟨fun h => ⟨?_, h⟩, fun h => h.2⟩
      rw [← Except.ok.inj h]
      exact List.cons_ne_nil _ _

theorem Normalized.unique {url' : PyStr} (h : Normalized netlocOk part url)
    (h' : Normalized netlocOk part url') : url = url' := by
  obtain ⟨u, hu, -, rfl⟩ := h
  obtain ⟨u', hu', -, rfl⟩ := h'
  rw [hu] at hu'
  cases hu'
  rfl

/-- The addresses can be told apart in the text that joins them. -/
structure Separate (urls : List PyStr) : Prop where
  ne_nil : urls ≠ []
  no_comma : ∀ url ∈ urls, 44 ∉ url
  visible : ∀ url ∈ urls, strip url ≠ []

variable {urls : List PyStr}

theorem Separate.splitOn (h : Separate urls) : ([44].intercalate urls).splitOn 44 = urls :=
  List.splitOn_intercalate 44 h.no_comma h.ne_nil

theorem Separate.filter (h : Separate urls) : urls.filter (strip · ≠ []) = urls :=
  List.filter_eq_self.mpr fun url hurl => decide_eq_true (h.visible url hurl)

theorem Separate.adminBaseurls (h : Separate urls) :
    adminBaseurls ([44].intercalate urls) = urls.map strip := by
  rw [ExecutorConfig.adminBaseurls, splitAdminBaseurls, h.splitOn, List.filter_eq_self]
  intro part hpart
  obtain ⟨url, hurl, rfl⟩ := List.mem_map.mp hpart
  exact decide_eq_true (h.visible url hurl)

theorem Separate.map_strip (h : Separate urls) : Separate (urls.map strip) where
  ne_nil := fun hnil => h.ne_nil (List.map_eq_nil_iff.mp hnil)
  no_comma := fun part hpart hc => by
    obtain ⟨url, hurl, rfl⟩ := List.mem_map.mp hpart
    exact h.no_comma url hurl (Lines.mem_of_mem_trim hc)
  visible := fun part hpart => by
    obtain ⟨url, hurl, rfl⟩ := List.mem_map.mp hpart
    have hstrip : strip (strip url) = strip url := Lines.trim_trim
    rw [hstrip]
    exact h.visible url hurl

theorem separate (hne : urls ≠ [])
    (h : List.Forall₂ (Normalized netlocOk) (splitAdminBaseurls raw) urls) : Separate urls where
  ne_nil := hne
  no_comma := forall_right h fun _ hpart _ hn => hn.no_comma (mem_split hpart).2
  visible := forall_right h fun _ _ _ hn => Lines.trim_ne_nil hn.head.1 hn.head.2

/-- A text that comes back and the list of its addresses have no blanks to lose. -/
theorem Pipeline.stripped (hsep : Separate urls)
    (h : Pipeline netlocOk raw ([44].intercalate urls)) : urls.map strip = urls := by
  obtain ⟨again, hne, hagain, htext⟩ := validate_ok.mp h.again
  have hfrom := h.fromText
  rw [XXL.normalizeAdminUrlText, hsep.splitOn, normalizeAdminUrls_ok, hsep.filter,
    hsep.adminBaseurls] at hfrom
  rw [← ExecutorConfig.adminBaseurls, hsep.adminBaseurls, List.forall₂_map_left_iff] at hagain
  have hsame : again = urls.map strip := List.right_unique_forall₂'
    (fun _ _ _ hn hn' => hn.unique hn') hagain hfrom.2
  have hsplit := congrArg (List.splitOn 44) htext
  rw [hsep.splitOn, hsame, hsep.map_strip.splitOn] at hsplit
  exact hsplit.symm

/-- An accepted text comes through the whole pipeline exactly if the path is the last part of each of
its addresses. -/
theorem admin_pipeline (h : validateAdminBaseurl netlocOk raw = .ok config) :
    Pipeline netlocOk raw config ↔
      ∀ part ∈ splitAdminBaseurls raw, ∀ u, urlparse netlocOk part = some u → PathLast u := by
  obtain ⟨urls, hne, hnorm, rfl⟩ := validate_ok.mp h
  have hsep := separate hne hnorm
  constructor
  · intro hpipe part hpart u hu
    -- what the list holds are the normalised addresses themselves
    have hrequests := hpipe.requests
    rw [hsep.adminBaseurls, hpipe.stripped hsep] at hrequests
    obtain ⟨url, ⟨u', hu', hs, rfl⟩, haddr⟩ := forall₂_both hnorm hrequests part hpart
    rw [hu] at hu'
    cases hu'
    exact (addressed_iff hu hs).mp haddr
  · intro hlast
    have hagain : ∀ url ∈ urls, strip url = url ∧ Normalized netlocOk url url :=
      forall_right hnorm fun part hpart _ hn => hn.again (hlast part hpart)
    have hstrip : urls.map strip = urls :=
      (List.map_congr_left fun url hurl => (hagain url hurl).1).trans (List.map_id' urls)
    have hbase : adminBaseurls ([44].intercalate urls) = urls := hsep.adminBaseurls.trans hstrip
    have hself : List.Forall₂ (Normalized netlocOk) urls urls :=
      List.forall₂_same.mpr fun url hurl => (hagain url hurl).2
    have hlist : XXL.normalizeAdminUrls netlocOk urls = .ok urls := by
      rw [normalizeAdminUrls_ok, hsep.filter]
      refine ⟨hne, forall₂_of_mem hself fun url hurl _ hn => ?_⟩
      rwa [(hagain url hurl).1]
    refine ⟨?_, ?_, ?_, ?_⟩
    · refine validate_ok.mpr ⟨urls, hne, ?_, rfl⟩
      rwa [← ExecutorConfig.adminBaseurls, hbase]
    · rw [hbase, hlist]
    · rw [XXL.normalizeAdminUrlText, hsep.splitOn, hbase, hlist]
    · rw [hbase]
      refine forall₂_of_mem hnorm fun part hpart url hn => ?_
      obtain ⟨u, hu, hs, rfl⟩ := hn
      exact (addressed_iff hu hs).mpr (hlast part hpart u hu)

/-- Two addresses, with and without the final `/api`. -/
theorem admin_pipeline_two :
    Pipeline (fun _ => true) (py "HTTP://h:80/x/, ,https://g/api")
      (py "http://h:80/x/api/,https://g/api/") := by
  refine (admin_pipeline (by decide)).mpr ?_
  have hsplit : splitAdminBaseurls (py "HTTP://h:80/x/, ,https://g/api") =
      [py "HTTP://h:80/x/", py "https://g/api"] := by decide
  rw [hsplit, List.forall_mem_cons, List.forall_mem_singleton]
  refine ⟨fun u hu => ?_, fun u hu => ?_⟩
  · cases hu
    decide
  · cases hu
    decide

/-- The endpoint goes into the query. -/
theorem query_takes_endpoint :
    validateAdminBaseurl (fun _ => true) (py "http://h/x?q=1") = .ok (py "http://h/x/api/?q=1") ∧
      ¬Pipeline (fun _ => true) (py "http://h/x?q=1") (py "http://h/x/api/?q=1") := by
  refine ⟨by decide, fun h => ?_⟩
  have hrequests := h.requests
  have hsplit : splitAdminBaseurls (py "http://h/x?q=1") = [py "http://h/x?q=1"] := by decide
  have hbase : adminBaseurls (py "http://h/x/api/?q=1") = [py "http://h/x/api/?q=1"] := by decide
  rw [hsplit, hbase] at hrequests
  cases hrequests with
  | cons haddr _ =>
    obtain ⟨user, req, huser, hreq, -, -, hpath⟩ := haddr .registry
    cases huser
    cases hreq
    revert hpath
    decide

end Pyxxl
