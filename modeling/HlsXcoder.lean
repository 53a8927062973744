import HlsXcoder.Lib.Text
import HlsXcoder.Lib.Mux
import HlsXcoder.Lib.Regexp.Find
import HlsXcoder.Lib.Regexp.Parse
import HlsXcoder.Codificacion.ListaMaestra
import HlsXcoder.Configuracion
import HlsXcoder.Codificacion.Grupos
import HlsXcoder.Codificacion.Flujos
import HlsXcoder.Codificacion.Argumentos
import HlsXcoder.Codificacion.Atribucion
import HlsXcoder.Codificacion.Direcciones
import HlsXcoder.Codificacion.Ficheros
import HlsXcoder.Codificacion.OpcionesVideo
import HlsXcoder.Codificacion.Independencia
import HlsXcoder.Codificacion.Concurrencia
import HlsXcoder.Codificacion.Directorios
import HlsXcoder.Codificacion.Claves
import HlsXcoder.Codificacion.Medias
import HlsXcoder.Codificacion.Metadatos
import HlsXcoder.Codificacion.Paradas
import HlsXcoder.Codificacion.Seleccion
import HlsXcoder.Codificacion.Bitrates
import HlsXcoder.Codificacion.Codecs
import HlsXcoder.Codificacion.Filtros
import HlsXcoder.Codificacion.Etiquetas
import HlsXcoder.Codificacion.Mapas
import HlsXcoder.Codificacion.Subtitulos
import HlsXcoder.ServidorWeb.Contencion
import HlsXcoder.ServidorWeb.Peticiones
import HlsXcoder.Codificacion.Idiomas
import HlsXcoder.Gramatica
import HlsXcoder.Protocolos
import HlsXcoder.Codificacion.Topes
import HlsXcoder.Codificacion.Listados
import HlsXcoder.Codificacion.Resumen
import HlsXcoder.Web.Menu
import HlsXcoder.Codificacion.Emision
import HlsXcoder.Web.M3u8Parser
import HlsXcoder.Web.MasterPlaylist
import HlsXcoder.Web.MediaPlaylist
import HlsXcoder.Web.UrlToolkit
import HlsXcoder.Web.PlaylistLoader
import HlsXcoder.Web.Recargas
import HlsXcoder.Web.Reproduccion
import HlsXcoder.Web.Sesion
