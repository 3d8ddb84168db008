import ComponentPages.Text.Quoted

/-!
The scripts that pages carry to the browser: the signal runtime, the script of a fetch element, and the block
that holds a page's own scripts. A project may put plain texts of its own in their place.
-/
namespace ComponentPages

/-- A loop over fetched data: the template it repeats, the name of an item and the path to the items. -/
structure Loop where
  templateId : Text
  item : Text
  source : Text
deriving DecidableEq

/-- An element whose contents are filled with fetched data. -/
structure FetchElement where
  id : Text
  method : Text
  url : Text
  binding : Text
  loops : List Loop := []
deriving DecidableEq

/-- The texts that a project puts in place of the bundled scripts. -/
structure ScriptTexts where
  runtime : Option Text := none
  fetch : Option Text := none
  page : Option Text := none

namespace ScriptTexts

def lines (lines : List Text) : Text := List.intercalate ['\n'] lines

/-- The signal runtime. A signal keeps its first value; `set` always stores and tells the subscribers. -/
def runtimeLines : List String := [
  "window.gtml = window.gtml || (function() \x7b",
  "  var values = \x7b\x7d;",
  "  var subscribers = \x7b\x7d;",
  "",
  "  function notify(name) \x7b",
  "    (subscribers[name] || []).forEach(function(callback) \x7b",
  "      callback(values[name]);",
  "    \x7d);",
  "  \x7d",
  "",
  "  function subscribe(name, callback) \x7b",
  "    (subscribers[name] = subscribers[name] || []).push(callback);",
  "    callback(values[name]);",
  "    return function() \x7b",
  "      subscribers[name] = subscribers[name].filter(function(existing) \x7b",
  "        return existing !== callback;",
  "      \x7d);",
  "    \x7d;",
  "  \x7d",
  "",
  "  return \x7b",
  "    signal: function(name, initial) \x7b",
  "      if (!Object.prototype.hasOwnProperty.call(values, name)) \x7b",
  "        values[name] = initial;",
  "        notify(name);",
  "      \x7d",
  "      return values[name];",
  "    \x7d,",
  "    get: function(name) \x7b",
  "      return values[name];",
  "    \x7d,",
  "    set: function(name, value) \x7b",
  "      values[name] = value;",
  "      notify(name);",
  "      return value;",
  "    \x7d,",
  "    subscribe: subscribe,",
  "    bind: function(root) \x7b",
  "      var nodes = (root || document).querySelectorAll('[data-signal-value]');",
  "      Array.prototype.forEach.call(nodes, function(node) \x7b",
  "        if (node.gtmlBound) \x7b",
  "          return;",
  "        \x7d",
  "        node.gtmlBound = true;",
  "        subscribe(node.getAttribute('data-signal-value'), function(value) \x7b",
  "          node.textContent = value === undefined || value === null ? '' : String(value);",
  "        \x7d);",
  "      \x7d);",
  "    \x7d",
  "  \x7d;",
  "\x7d)();"]

/-- The helpers of a fetch script, from the lookup of its parts on. -/
def fetchHelpers : List String := [
  "  if (!root) \x7b",
  "    return;",
  "  \x7d",
  "  var suspense = root.querySelector('[data-gtml-suspense]');",
  "  var fallback = root.querySelector('[data-gtml-fallback]');",
  "",
  "  function resolvePath(scope, path) \x7b",
  "    return path.split('.').reduce(function(value, key) \x7b",
  "      return value === undefined || value === null ? undefined : value[key];",
  "    \x7d, scope);",
  "  \x7d",
  "",
  "  function replaceExpressions(html, scope) \x7b",
  "    return html.replace(/\\\x7b\\s*([A-Za-z_$][\\w$]*(?:\\.[A-Za-z_$][\\w$]*)?)\\s*\\\x7d/g, function(match, path) \x7b",
  "      var value = resolvePath(scope, path);",
  "      return value === undefined || value === null ? '' : String(value);",
  "    \x7d);",
  "  \x7d",
  "",
  "  function renderExpressions(node, scope) \x7b",
  "    Array.prototype.forEach.call(node.childNodes, function(child) \x7b",
  "      if (child.nodeType === 3) \x7b",
  "        child.textContent = replaceExpressions(child.textContent, scope);",
  "      \x7d else if (child.nodeType === 1 && child.tagName !== 'SCRIPT' && !child.hasAttribute('data-gtml-for') && !child.hasAttribute('data-gtml-fallback')) \x7b",
  "        Array.prototype.forEach.call(child.attributes, function(attr) \x7b",
  "          attr.value = replaceExpressions(attr.value, scope);",
  "        \x7d);",
  "        renderExpressions(child, scope);",
  "      \x7d",
  "    \x7d);",
  "  \x7d",
  "",
  "  function processForLoops(container, scope) \x7b",
  "    var templates = Array.prototype.filter.call(container.querySelectorAll('[data-gtml-for]'), function(el) \x7b",
  "      var outer = el.parentElement ? el.parentElement.closest('[data-gtml-for]') : null;",
  "      return !outer || !container.contains(outer);",
  "    \x7d);",
  "    templates.forEach(function(template) \x7b",
  "      var items = resolvePath(scope, template.getAttribute('data-gtml-source'));",
  "      var itemName = template.getAttribute('data-gtml-item');",
  "      if (Array.isArray(items)) \x7b",
  "        items.forEach(function(item) \x7b",
  "          var clone = template.cloneNode(true);",
  "          clone.removeAttribute('data-gtml-for');",
  "          clone.removeAttribute('data-gtml-item');",
  "          clone.removeAttribute('data-gtml-source');",
  "          clone.style.display = '';",
  "          if (!clone.getAttribute('style')) \x7b",
  "            clone.removeAttribute('style');",
  "          \x7d",
  "          var itemScope = Object.assign(\x7b\x7d, scope);",
  "          itemScope[itemName] = item;",
  "          processForLoops(clone, itemScope);",
  "          var holder = document.createElement('template');",
  "          holder.innerHTML = replaceExpressions(clone.outerHTML, itemScope);",
  "          template.parentNode.insertBefore(holder.content, template);",
  "        \x7d);",
  "      \x7d",
  "      if (container !== root) \x7b",
  "        template.remove();",
  "      \x7d",
  "    \x7d);",
  "  \x7d",
  ""]

/-- What a fetch script does when the request fails, and its end. -/
def fetchFailure : List String := [
  "    \x7d)",
  "    .catch(error => \x7b",
  "      if (suspense) \x7b",
  "        suspense.remove();",
  "      \x7d",
  "      if (fallback) \x7b",
  "        fallback.style.display = '';",
  "      \x7d",
  "      console.error('Fetch error:', error);",
  "    \x7d);",
  "\x7d)();",
  "</script>"]

/-- The bundled script of a fetch element. Id and URL stand in quoted strings; the rest is inserted as it is. -/
def bundledFetch (element : FetchElement) : Text :=
  let opening : List Text := [
    "<script>",
    "(function() \x7b",
    "  var root = document.getElementById('" ++ Text.scriptQuoted element.id ++ "');"]
  let request : List Text := [
    "  fetch('" ++ Text.scriptQuoted element.url ++ "', \x7b method: '" ++ element.method ++ "' \x7d)",
    "    .then(response => \x7b",
    "      if (!response.ok) throw new Error('HTTP ' + response.status);",
    "      return response.json();",
    "    \x7d)",
    "    .then(" ++ element.binding ++ " => \x7b",
    "      if (suspense) \x7b",
    "        suspense.remove();",
    "      \x7d",
    "      var scope = \x7b\x7d;",
    "      scope['" ++ element.binding ++ "'] = " ++ element.binding ++ ";",
    "      renderExpressions(root, scope);"]
  let loops : List Text := if element.loops = [] then [] else ["      processForLoops(root, scope);"]
  lines (opening ++ fetchHelpers.map String.toList ++ request ++ loops ++ fetchFailure.map String.toList)

/-- The runtime as a project has it, without white space at its ends. -/
def runtimeText (texts : ScriptTexts) : Text := Text.trim (texts.runtime.getD (lines (runtimeLines.map String.toList)))

/-- The script of a fetch element as a project has it. -/
def fetchScript (texts : ScriptTexts) (element : FetchElement) : Text :=
  match texts.fetch with
  | some text => Text.trim text
  | none => Text.trim (bundledFetch element)

/-- A text without the line break at its very end. -/
def withoutFinalBreak (text : Text) : Text := if text.getLast? = some '\n' then text.dropLast else text

/-- The bundled script block of a page: the runtime when signals are used, the scripts, and the call that binds
the signals. -/
def bundledPage (runtime : Text) (scripts : List Text) (usesSignals : Bool) : Text :=
  let opening : Text := "<script>\n"
  let library : Text := if usesSignals then runtime ++ "\n" else []
  let binding : Text := if usesSignals then "gtml.bind(document);\n" else []
  opening ++ library ++ scripts.flatMap (· ++ ['\n']) ++ binding ++ "</script>"

/-- The script block of a page; a page with nothing to run has none. -/
def pageScript (texts : ScriptTexts) (scripts : List Text) (usesSignals : Bool) : Text :=
  if scripts = [] && !usesSignals then []
  else
    match texts.page with
    | some text => Text.trim text
    | none =>
      let runtime := withoutFinalBreak (texts.runtime.getD (lines (runtimeLines.map String.toList)))
      Text.trim (bundledPage runtime scripts usesSignals)

end ScriptTexts

end ComponentPages
