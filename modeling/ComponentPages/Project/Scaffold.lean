import ComponentPages.Text.Basic

/-!
The files of a new project, for given names of its directories.
-/
namespace ComponentPages

/-- The directories of a project, as paths relative to its root. -/
structure Directories where
  components : Text := "components"
  routes : Text := "routes"
  dist : Text := "dist"
  static : Text := "static"
deriving DecidableEq

namespace Scaffold

/-- The name of a project's settings file. -/
def settingsName : Text := ".gtml.yml"

def ofLines (lines : List String) : Text := lines.flatMap fun line => line.toList ++ ['\n']

def button : Text := ofLines ["<button props='text string'>\x7btext\x7d</button>"]

def layout : Text := ofLines [
  "<html props='title string'>",
  "  <head>",
  "    <title>\x7btitle\x7d</title>",
  "  </head>",
  "  <body>",
  "    <BasicButton text=\x7btitle\x7d />",
  "    <slot name='content' />",
  "  </body>",
  "</html>"]

def index : Text := ofLines [
  "<GuestLayout title='Some Title'>",
  "  <slot name='content'>",
  "    <p>Some Content</p>",
  "  </slot>",
  "</GuestLayout>"]

/-- The settings file spells out the settings that hold without one. -/
def settings : Text := ofLines [
  "paths:",
  "  components: components",
  "  routes: routes",
  "  dist: dist",
  "  static: static",
  "compiler:",
  "  strict_props: false",
  "  max_depth: 64",
  "  inject_assets: true",
  "  stylesheet: styles.css",
  "watch:",
  "  interval: 1.0"]

/-- The starter files, each with its path relative to the project. -/
def files (directories : Directories) : List (Text × Text) := [
  (directories.components ++ "/BasicButton.html", button),
  (directories.components ++ "/GuestLayout.html", layout),
  (directories.routes ++ "/index.html", index),
  (settingsName, settings)]

/-- The directories a new project starts with. -/
def directories (directories : Directories) : List Text :=
  [directories.components, directories.routes, directories.static, directories.dist ++ '/' :: directories.static]

end Scaffold

end ComponentPages
